import Mathlib.Data.List.Nodup
import NvmeVirt.Io.Prp

/-!
# The two data paths

A worker copies the data of a command with `memcpy`, page by page (`__do_perform_io`), or has the
DMA engine copy it (`__do_perform_io_using_dma`): the PRPs are read into an array first, and pages
that follow each other in physical memory make one transfer. A `Transfer` is the memories with the
list of the copies that were made; `ioat_dma_submit` copies the range that it is given. The storage
of the one namespace begins at `storage_start`, so that an offset stands for both addresses.

`data_paths_agree`: both paths move the same bytes in the order of the PRPs. A read that overwrites
its own PRP list is left out: there the `memcpy` path goes on with the new list
(`read_over_own_list`).
-/

namespace Nvmev

open Function Outcome CInt Bytes

namespace Prp

/-- A copy of `size` bytes between the host address `host` and the offset `storage`. -/
structure Copy where
  dir : Dir
  host : Nat
  storage : Nat
  size : Nat
  deriving DecidableEq, Repr

/-- One byte of a copy. -/
structure Move where
  dir : Dir
  host : Nat
  storage : Nat
  deriving DecidableEq, Repr

/-- The bytes of a copy, in their order. -/
def Copy.moves (c : Copy) : List Move :=
  (List.range c.size).map fun k =>
    { dir := c.dir, host := u64 (c.host + k), storage := u64 (c.storage + k) }

/-- The memories, and the copies so far. -/
structure Transfer where
  ms : Memories
  copies : List Copy := []

/-- One copy, if the command has a direction. -/
def Transfer.copy (s : Transfer) (c : Copy) : Transfer :=
  match c.dir with
  | .toStorage =>
    { ms := { s.ms with
        storage := copyIn s.ms.storage c.storage (fun k => s.ms.host (u64 (c.host + k))) c.size }
      copies := s.copies ++ [c] }
  | .toHost =>
    { ms := { s.ms with
        host := copyIn s.ms.host c.host (fun k => s.ms.storage (u64 (c.storage + k))) c.size }
      copies := s.copies ++ [c] }
  | .nowhere => s

section Loops

variable (M : Mapping) (prp1 prp2 : Nat)

/-- The loop of `__do_perform_io`, with its copies. -/
def memcpyLoop (dir : Dir) : Nat → Cursor → Nat → Nat → Transfer → Except Bug Transfer
  | 0, _, remaining, _, s => if remaining = 0 then .ok s else .error (.endlessLoop .doPerformIo)
  | fuel + 1, c, remaining, offset, s =>
    if remaining = 0 then .ok s
    else
      let (paddr, c) := nextPrp M prp1 prp2 s.ms.host remaining c
      let size := ioSize remaining paddr
      memcpyLoop dir fuel c (remaining - size) (u64 (offset + size))
        (s.copy { dir, host := dataStart M paddr, storage := offset, size })

/-- The first loop of `__do_perform_io_using_dma`: `num_prps` and `paddr_list`, an array of 513
words. -/
def gatherPrps (host : Mem) : Nat → Cursor → Nat → (Nat → Nat) → Except Bug (Nat × (Nat → Nat))
  | 0, c, remaining, l =>
    if remaining = 0 then .ok (c.prpOffs, l) else .error (.endlessLoop .doPerformIoUsingDma)
  | fuel + 1, c, remaining, l =>
    if remaining = 0 then .ok (c.prpOffs, l)
    else do
      let (paddr, c) := nextPrp M prp1 prp2 host remaining c
      ensure (c.prpOffs < 513) (.outOfBounds .doPerformIoUsingDma)
      gatherPrps host fuel c (remaining - ioSize remaining paddr) (update l c.prpOffs paddr)

/-- `for (prp_offs++; prp_offs <= num_prps; prp_offs++)`: the pages that follow the page before
them. -/
def mergeRun (l : Nat → Nat) (numPrps : Nat) : Nat → Nat → Nat → Nat × Nat
  | 0, prpOffs, size => (prpOffs, size)
  | fuel + 1, prpOffs, size =>
    if prpOffs ≤ numPrps ∧ l prpOffs = u64 (l (prpOffs - 1) + pageSize) then
      mergeRun l numPrps fuel (prpOffs + 1) (size + pageSize)
    else (prpOffs, size)

/-- The second loop of `__do_perform_io_using_dma`. -/
def dmaLoop (dir : Dir) (l : Nat → Nat) (numPrps : Nat) :
    Nat → Nat → Nat → Nat → Transfer → Except Bug Transfer
  | 0, _, remaining, _, s =>
    if remaining = 0 then .ok s else .error (.endlessLoop .doPerformIoUsingDma)
  | fuel + 1, prpOffs, remaining, offset, s =>
    if remaining = 0 then .ok s
    else do
      ensure (prpOffs < 513) (.outOfBounds .doPerformIoUsingDma)
      let paddr := l prpOffs
      let (prpOffs, runSize) := mergeRun l numPrps numPrps (prpOffs + 1) (ioSize remaining paddr)
      let size := min remaining runSize
      dmaLoop dir l numPrps fuel prpOffs (remaining - size) (u64 (offset + size))
        (s.copy { dir, host := paddr, storage := offset, size })

/-- The PRPs that a walk uses. -/
def prps (host : Mem) : Nat → Cursor → Nat → List Nat
  | 0, _, _ => []
  | fuel + 1, c, remaining =>
    if remaining = 0 then []
    else
      let (paddr, c) := nextPrp M prp1 prp2 host remaining c
      paddr :: prps host fuel c (remaining - ioSize remaining paddr)

end Loops

/-- The copies of the pages `ps`, one by one. -/
def pages (M : Mapping) (dir : Dir) : List Nat → Nat → Nat → List Copy
  | [], _, _ => []
  | p :: ps, remaining, offset =>
    { dir, host := dataStart M p, storage := offset, size := ioSize remaining p } ::
      pages M dir ps (remaining - ioSize remaining p) (u64 (offset + ioSize remaining p))

/-- The pages hold the remaining bytes, and the last one is used. -/
def Covers : List Nat → Nat → Prop
  | [], remaining => remaining = 0
  | p :: ps, remaining => remaining ≠ 0 ∧ Covers ps (remaining - ioSize remaining p)

/-! ## The bytes of a list of copies -/

theorem u64_add_left (a b : Nat) : u64 (u64 a + b) = u64 (a + b) := by
  unfold u64
  omega

theorem moves_append (dir : Dir) (host offset m n : Nat) :
    Copy.moves ⟨dir, host, offset, m⟩ ++ Copy.moves ⟨dir, u64 (host + m), u64 (offset + m), n⟩ =
      Copy.moves ⟨dir, host, offset, m + n⟩ := by
  unfold Copy.moves
  rw [List.range_add, List.map_append, List.map_map]
  congr 1
  refine List.map_congr_left fun k _ => ?_
  simp only [comp_apply, Move.mk.injEq, true_and]
  unfold u64
  omega

section

variable {M : Mapping} {prp1 prp2 fuel remaining offset : Nat} {host host' : Mem} {c : Cursor}
  {dir : Dir} {ps : List Nat} {s : Transfer}

theorem prps_succ (h0 : remaining ≠ 0) :
    prps M prp1 prp2 host (fuel + 1) c remaining =
      (nextPrp M prp1 prp2 host remaining c).1 ::
        prps M prp1 prp2 host fuel (nextPrp M prp1 prp2 host remaining c).2
          (remaining - ioSize remaining (nextPrp M prp1 prp2 host remaining c).1) := by
  rw [prps, if_neg h0]

theorem prps_covers (hf : remaining ≤ fuel) :
    Covers (prps M prp1 prp2 host fuel c remaining) remaining := by
  induction fuel generalizing c remaining with
  | zero => exact Nat.le_zero.mp hf
  | succ fuel ih =>
    by_cases h0 : remaining = 0
    · subst h0
      simp [prps, Covers]
    · have hpos := ioSize_pos (Nat.pos_of_ne_zero h0) (nextPrp M prp1 prp2 host remaining c).1
      rw [prps_succ h0]
      exact ⟨h0, ih (by omega)⟩

/-- The pages hold the bytes that the PRPs describe, in their order. -/
theorem moves_pages (hf : remaining ≤ fuel) :
    (pages M dir (prps M prp1 prp2 host fuel c remaining) remaining offset).flatMap Copy.moves =
      (List.range remaining).map fun k =>
        ⟨dir, dataAddr M prp1 prp2 host fuel c remaining k, u64 (offset + k)⟩ := by
  induction fuel generalizing c remaining offset with
  | zero =>
    obtain rfl : remaining = 0 := by omega
    rfl
  | succ fuel ih =>
    by_cases h0 : remaining = 0
    · subst h0
      simp [prps, pages]
    rw [prps_succ h0]
    rcases hn : nextPrp M prp1 prp2 host remaining c with ⟨paddr, c'⟩
    have hpos := ioSize_pos (Nat.pos_of_ne_zero h0) paddr
    have hle := ioSize_le remaining paddr
    obtain ⟨rest, hrest⟩ : ∃ rest, remaining = ioSize remaining paddr + rest := Nat.exists_eq_add_of_le hle
    have hsub : remaining - ioSize remaining paddr = rest := by omega
    simp only [pages, List.flatMap_cons]
    rw [ih (by omega)]
    conv_rhs => rw [hrest, List.range_add, List.map_append, List.map_map]
    congr 1
    · refine List.map_congr_left fun k hk => ?_
      rw [← hrest, dataAddr_page hn (List.mem_range.mp hk)]
    · rw [hsub]
      refine List.map_congr_left fun k _ => ?_
      rw [comp_apply, ← hrest, dataAddr_add hn, hsub]
      congr 1
      unfold u64
      omega

theorem mem_moves {c : Copy} {m : Move} :
    m ∈ c.moves ↔ ∃ k < c.size, m = ⟨c.dir, u64 (c.host + k), u64 (c.storage + k)⟩ := by
  simp [Copy.moves, eq_comm]

/-! ## The loop with `memcpy` -/

theorem prps_congr
    (h : ∀ a ∈ listAddrs M prp1 prp2 host fuel c remaining, ∀ i < 8, host' (a + i) = host (a + i)) :
    prps M prp1 prp2 host' fuel c remaining = prps M prp1 prp2 host fuel c remaining := by
  induction fuel generalizing c remaining with
  | zero => rfl
  | succ fuel ih =>
    by_cases h0 : remaining = 0
    · simp [prps, h0]
    rcases hn : nextPrp M prp1 prp2 host remaining c with ⟨paddr, c'⟩
    rw [listAddrs_succ h0 hn] at h
    have hn' : nextPrp M prp1 prp2 host' remaining c = (paddr, c') := by
      rw [← hn]
      exact nextPrp_congr fun a ha => h a (List.mem_append_left _ ha)
    rw [prps_succ h0, prps_succ h0, hn, hn']
    exact congrArg _ (ih fun a ha => h a (List.mem_append_right _ ha))

/-- No list entry is among the bytes of a page that comes before the loop reads the entry. -/
def ListApart (M : Mapping) (prp1 prp2 : Nat) (host : Mem) : Nat → Cursor → Nat → Prop
  | 0, _, _ => True
  | fuel + 1, c, remaining =>
    if remaining = 0 then True
    else
      let (paddr, c') := nextPrp M prp1 prp2 host remaining c
      let size := ioSize remaining paddr
      (∀ a ∈ listAddrs M prp1 prp2 host fuel c' (remaining - size), ∀ i < 8, ∀ k < size,
        a + i ≠ u64 (dataStart M paddr + k)) ∧ ListApart M prp1 prp2 host fuel c' (remaining - size)

theorem listApart_succ {paddr : Nat} {c' : Cursor} (h0 : remaining ≠ 0)
    (hn : nextPrp M prp1 prp2 host remaining c = (paddr, c')) :
    ListApart M prp1 prp2 host (fuel + 1) c remaining ↔
      (∀ a ∈ listAddrs M prp1 prp2 host fuel c' (remaining - ioSize remaining paddr), ∀ i < 8,
        ∀ k < ioSize remaining paddr, a + i ≠ u64 (dataStart M paddr + k)) ∧
      ListApart M prp1 prp2 host fuel c' (remaining - ioSize remaining paddr) := by
  rw [ListApart, if_neg h0, hn]

variable (offset) in
/-- A copy does not change the rest of the list. -/
theorem copy_list {paddr : Nat} {c' : Cursor} (h0 : remaining ≠ 0)
    (hn : nextPrp M prp1 prp2 s.ms.host remaining c = (paddr, c'))
    (hapart : dir = .toHost → ListApart M prp1 prp2 s.ms.host (fuel + 1) c remaining) :
    ∀ a ∈ listAddrs M prp1 prp2 s.ms.host fuel c' (remaining - ioSize remaining paddr), ∀ i < 8,
      (s.copy ⟨dir, dataStart M paddr, offset, ioSize remaining paddr⟩).ms.host (a + i) =
        s.ms.host (a + i) := by
  intro a ha i hi
  cases dir with
  | toStorage => rfl
  | nowhere => rfl
  | toHost =>
    simp only [Transfer.copy]
    refine copyIn_of_ne fun k hk => ?_
    exact ((listApart_succ h0 hn).mp (hapart rfl)).1 a ha i hi k hk

theorem ListApart.congr (h : ListApart M prp1 prp2 host fuel c remaining)
    (hlist : ∀ a ∈ listAddrs M prp1 prp2 host fuel c remaining, ∀ i < 8,
      host' (a + i) = host (a + i)) : ListApart M prp1 prp2 host' fuel c remaining := by
  induction fuel generalizing c remaining with
  | zero => trivial
  | succ fuel ih =>
    by_cases h0 : remaining = 0
    · rw [ListApart, if_pos h0]
      trivial
    rcases hn : nextPrp M prp1 prp2 host remaining c with ⟨paddr, c'⟩
    rw [listAddrs_succ h0 hn] at hlist
    have hn' : nextPrp M prp1 prp2 host' remaining c = (paddr, c') := by
      rw [← hn]
      exact nextPrp_congr fun a ha => hlist a (List.mem_append_left _ ha)
    have hrest := fun a ha => hlist a (List.mem_append_right _ ha)
    obtain ⟨hpage, hlater⟩ := (listApart_succ h0 hn).mp h
    refine (listApart_succ h0 hn').mpr ⟨fun a ha => hpage a ?_, ih hlater hrest⟩
    rwa [← (walk_congr hrest).2]

/-- The entries are behind or before the pages. -/
theorem listApart_of_pages
    (h : ∀ p ∈ prps M prp1 prp2 host fuel c remaining,
      ∀ a ∈ listAddrs M prp1 prp2 host fuel c remaining, ∀ i < 8, ∀ k < pageSize,
        a + i ≠ u64 (dataStart M p + k)) : ListApart M prp1 prp2 host fuel c remaining := by
  induction fuel generalizing c remaining with
  | zero => trivial
  | succ fuel ih =>
    by_cases h0 : remaining = 0
    · rw [ListApart, if_pos h0]
      trivial
    rcases hn : nextPrp M prp1 prp2 host remaining c with ⟨paddr, c'⟩
    rw [prps_succ h0, listAddrs_succ h0 hn, hn] at h
    have hsize : ioSize remaining paddr ≤ pageSize := by
      rw [ioSize_eq]
      omega
    refine (listApart_succ h0 hn).mpr ⟨fun a ha i hi k hk => ?_, ih fun p hp a ha => ?_⟩
    · exact h paddr List.mem_cons_self a (List.mem_append_right _ ha) i hi k (by omega)
    · exact h p (List.mem_cons_of_mem _ hp) a (List.mem_append_right _ ha)

theorem copy_copies (hdir : dir ≠ .nowhere) (s : Transfer) (host offset size : Nat) :
    (s.copy ⟨dir, host, offset, size⟩).copies = s.copies ++ [⟨dir, host, offset, size⟩] := by
  cases dir with
  | toStorage => rfl
  | toHost => rfl
  | nowhere => exact absurd rfl hdir

/-- The loop copies the pages one by one. -/
theorem memcpyLoop_copies (hdir : dir ≠ .nowhere) (hf : remaining ≤ fuel)
    (hapart : dir = .toHost → ListApart M prp1 prp2 s.ms.host fuel c remaining) :
    Total (memcpyLoop M prp1 prp2 dir fuel c remaining offset s) fun s' =>
      s'.copies =
        s.copies ++ pages M dir (prps M prp1 prp2 s.ms.host fuel c remaining) remaining offset := by
  induction fuel generalizing c remaining offset s with
  | zero =>
    obtain rfl : remaining = 0 := by omega
    exact .ret (by simp [prps, pages])
  | succ fuel ih =>
    unfold memcpyLoop
    by_cases h0 : remaining = 0
    · subst h0
      exact .ret (by simp [prps, pages])
    rw [if_neg h0, prps_succ h0]
    rcases hn : nextPrp M prp1 prp2 s.ms.host remaining c with ⟨paddr, c'⟩
    have hpos := ioSize_pos (Nat.pos_of_ne_zero h0) paddr
    have hlist := copy_list offset h0 hn hapart
    have happly (hd : dir = .toHost) := ((listApart_succ h0 hn).mp (hapart hd)).2.congr hlist
    refine (ih (by omega) happly).mono fun s' hs' => ?_
    rw [hs', copy_copies hdir, prps_congr hlist, pages, List.append_assoc]
    rfl

/-- The loop leaves the memories that `transfer` leaves. -/
theorem memcpyLoop_ms :
    Partial (memcpyLoop M prp1 prp2 dir fuel c remaining offset s) fun s' =>
      s'.ms = transfer M prp1 prp2 dir fuel c remaining offset s.ms := by
  induction fuel generalizing c remaining offset s with
  | zero =>
    unfold memcpyLoop
    split
    · exact .ret rfl
    · exact .error
  | succ fuel ih =>
    unfold memcpyLoop transfer
    split
    · exact .ret rfl
    · refine ih.mono fun s' hs' => ?_
      rw [hs']
      cases dir <;> rfl

/-- Whatever the PRPs are, the loop takes the bytes of the storage in their order. -/
theorem memcpyLoop_storage (hdir : dir ≠ .nowhere) (hf : remaining ≤ fuel) :
    Total (memcpyLoop M prp1 prp2 dir fuel c remaining offset s) fun s' =>
      (s'.copies.flatMap Copy.moves).map (·.storage) =
        (s.copies.flatMap Copy.moves).map (·.storage) ++
          (List.range remaining).map fun k => u64 (offset + k) := by
  induction fuel generalizing c remaining offset s with
  | zero =>
    obtain rfl : remaining = 0 := by omega
    exact .ret (by simp)
  | succ fuel ih =>
    unfold memcpyLoop
    by_cases h0 : remaining = 0
    · subst h0
      exact .ret (by simp)
    rw [if_neg h0]
    rcases nextPrp M prp1 prp2 s.ms.host remaining c with ⟨paddr, c'⟩
    have hpos := ioSize_pos (Nat.pos_of_ne_zero h0) paddr
    obtain ⟨rest, hrest⟩ : ∃ rest, remaining = ioSize remaining paddr + rest :=
      Nat.exists_eq_add_of_le (ioSize_le remaining paddr)
    refine (ih (by omega)).mono fun s' hs' => ?_
    rw [hs', copy_copies hdir, List.flatMap_append, List.map_append, List.append_assoc]
    congr 1
    conv_rhs => rw [hrest, List.range_add, List.map_append, List.map_map]
    rw [show remaining - ioSize remaining paddr = rest by omega]
    congr 1
    · rw [List.flatMap_singleton, Copy.moves, List.map_map]
      rfl
    · refine List.map_congr_left fun k _ => ?_
      rw [comp_apply]
      unfold u64
      omega

/-- A transfer to the host does not change the storage. -/
theorem transfer_toHost_storage (ms : Memories) :
    (transfer M prp1 prp2 .toHost fuel c remaining offset ms).storage = ms.storage := by
  induction fuel generalizing c remaining offset ms with
  | zero => rfl
  | succ fuel ih =>
    unfold transfer
    split
    · rfl
    · exact ih _

/-! ## The array of PRPs -/

/-- The entries of `l` from `i` on are `ps`. -/
def Holds (l : Nat → Nat) (i : Nat) (ps : List Nat) : Prop :=
  (List.range' i ps.length).map l = ps

theorem Holds.tail {l : Nat → Nat} {i p : Nat} (h : Holds l i (p :: ps)) :
    l i = p ∧ Holds l (i + 1) ps := by
  unfold Holds at h
  rw [List.length_cons, List.range'_succ, List.map_cons, List.cons.injEq] at h
  exact h

theorem gatherPrps_ok {l : Nat → Nat} (hf : remaining ≤ fuel)
    (hlen : c.prpOffs + (prps M prp1 prp2 host fuel c remaining).length ≤ 512) :
    Total (gatherPrps M prp1 prp2 host fuel c remaining l) fun r =>
      r.1 = c.prpOffs + (prps M prp1 prp2 host fuel c remaining).length ∧
      Holds r.2 (c.prpOffs + 1) (prps M prp1 prp2 host fuel c remaining) ∧
      ∀ i ≤ c.prpOffs, r.2 i = l i := by
  induction fuel generalizing c remaining l with
  | zero =>
    obtain rfl : remaining = 0 := by omega
    exact .ret ⟨rfl, rfl, fun _ _ => rfl⟩
  | succ fuel ih =>
    unfold gatherPrps
    by_cases h0 : remaining = 0
    · subst h0
      exact .ret ⟨by simp [prps], by simp [prps, Holds], fun _ _ => rfl⟩
    rw [prps_succ h0] at hlen ⊢
    rw [if_neg h0]
    rcases hn : nextPrp M prp1 prp2 host remaining c with ⟨paddr, c'⟩
    have hc' : c'.prpOffs = c.prpOffs + 1 := by
      rw [show c' = (nextPrp M prp1 prp2 host remaining c).2 by rw [hn]]
      unfold nextPrp
      simp only []
      split_ifs <;> rfl
    simp only [hn, List.length_cons] at hlen ⊢
    have hpos := ioSize_pos (Nat.pos_of_ne_zero h0) paddr
    refine (Total.ensure (by omega)).bind fun _ _ => ?_
    refine (ih (by omega) (by omega)).mono fun r ⟨hnum, hholds, hold⟩ => ⟨by omega, ?_, ?_⟩
    · unfold Holds at hholds ⊢
      rw [List.length_cons, List.range'_succ, List.map_cons, ← hc', hholds, hold _ (Nat.le_refl _),
        update_self]
    · intro i hi
      rw [hold i (by omega), update_of_ne (by omega)]

/-! ## The loop with the DMA engine -/

/-- The number of pages of `ps` that follow the page at `p`. -/
def runLength : Nat → List Nat → Nat
  | _, [] => 0
  | p, q :: ps => if q = u64 (p + pageSize) then runLength q ps + 1 else 0

theorem runLength_le (p : Nat) (ps : List Nat) : runLength p ps ≤ ps.length := by
  induction ps generalizing p with
  | nil => exact Nat.le_refl 0
  | cons q ps ih =>
    have := ih q
    unfold runLength
    rw [List.length_cons]
    split <;> omega

theorem mergeRun_eq {l : Nat → Nat} {numPrps i p size : Nat} (h : Holds l (i + 1) ps)
    (hp : l i = p) (hnum : numPrps = i + ps.length) (hf : ps.length ≤ fuel) :
    mergeRun l numPrps fuel (i + 1) size =
      (i + 1 + runLength p ps, size + runLength p ps * pageSize) := by
  induction ps generalizing fuel i p size with
  | nil =>
    have hend : ¬ i + 1 ≤ numPrps := by
      rw [hnum]
      simp
    cases fuel with
    | zero => simp [mergeRun, runLength]
    | succ fuel => simp [mergeRun, runLength, hend]
  | cons q ps ih =>
    rw [List.length_cons] at hnum hf
    obtain ⟨n, rfl⟩ : ∃ n, fuel = n + 1 := ⟨fuel - 1, by omega⟩
    obtain ⟨hq, hrest⟩ := h.tail
    unfold mergeRun runLength
    rw [hq, Nat.add_sub_cancel, hp]
    by_cases hnext : q = u64 (p + pageSize)
    · rw [if_pos ⟨by omega, hnext⟩, if_pos hnext, ih hrest hq (by omega) (by omega)]
      simp only [Prod.mk.injEq]
      rw [Nat.add_mul, Nat.one_mul]
      omega
    · rw [if_neg fun hc => hnext hc.2, if_neg hnext]
      simp

theorem Holds.drop {l : Nat → Nat} {i : Nat} (h : Holds l i ps) :
    ∀ m ≤ ps.length, Holds l (i + m) (ps.drop m) := by
  induction ps generalizing i with
  | nil => exact fun m _ => by simp [Holds]
  | cons p ps ih =>
    intro m hm
    cases m with
    | zero => exact h
    | succ m =>
      rw [List.length_cons] at hm
      have := ih h.tail.2 m (by omega)
      rwa [show i + 1 + m = i + (m + 1) by omega] at this

theorem moves_pages_cons (hM : ∀ p, dataStart M p = p) (p : Nat) (ps : List Nat) :
    (pages M dir (p :: ps) remaining offset).flatMap Copy.moves =
      Copy.moves ⟨dir, p, offset, ioSize remaining p⟩ ++
        (pages M dir ps (remaining - ioSize remaining p)
          (u64 (offset + ioSize remaining p))).flatMap Copy.moves := by
  have hcopy : Copy.moves ⟨dir, dataStart M p, offset, ioSize remaining p⟩ =
      Copy.moves ⟨dir, p, offset, ioSize remaining p⟩ := by rw [hM]
  rw [← hcopy]
  rfl

theorem min_add_page {page : Nat} (h : page ≤ remaining) (n : Nat) :
    min remaining (n + page) = page + min (remaining - page) n := by
  omega

/-- The pages of a run are one range. -/
theorem pages_aligned_run (hM : ∀ p, dataStart M p = p) {p : Nat}
    (haligned : ∀ q ∈ p :: ps, q % pageSize = 0) (hcov : Covers (p :: ps) remaining) :
    let n := min remaining ((runLength p ps + 1) * pageSize)
    (pages M dir (p :: ps) remaining offset).flatMap Copy.moves =
        Copy.moves ⟨dir, p, offset, n⟩ ++
          (pages M dir (ps.drop (runLength p ps)) (remaining - n) (u64 (offset + n))).flatMap
            Copy.moves ∧
      Covers (ps.drop (runLength p ps)) (remaining - n) := by
  induction ps generalizing p remaining offset with
  | nil =>
    have hsize : ioSize remaining p = min remaining ((runLength p [] + 1) * pageSize) := by
      rw [ioSize_eq, haligned p (by simp)]
      simp [runLength]
    simp only [List.drop_nil, ← hsize]
    exact ⟨moves_pages_cons hM p [], hcov.2⟩
  | cons q ps ih =>
    have hp : ioSize remaining p = min remaining pageSize := by
      rw [ioSize_eq, haligned p (by simp), Nat.sub_zero]
    by_cases hnext : q = u64 (p + pageSize)
    · -- The page is full, and the run goes on after it.
      have hpage : 0 < pageSize := by decide
      obtain ⟨hq0, -⟩ := hcov.2
      rw [hp] at hq0
      have hfull : ioSize remaining p = pageSize := by omega
      have hrest := hcov.2
      rw [hfull] at hrest
      have hrun : runLength p (q :: ps) = runLength q ps + 1 := by simp [runLength, hnext]
      have htail (r : Nat) (hr : r ∈ q :: ps) : r % pageSize = 0 :=
        haligned r (List.mem_cons_of_mem _ hr)
      obtain ⟨hmoves, hcovers⟩ := @ih (remaining - pageSize) (u64 (offset + pageSize)) q htail hrest
      have hsplit : min remaining ((runLength q ps + 1 + 1) * pageSize) =
          pageSize + min (remaining - pageSize) ((runLength q ps + 1) * pageSize) := by
        rw [Nat.add_mul _ 1, Nat.one_mul]
        exact min_add_page (by omega) _
      simp only [hrun, List.drop_succ_cons, hsplit]
      rw [moves_pages_cons hM, hfull, hmoves, ← moves_append, ← hnext, List.append_assoc,
        u64_add_left, Nat.add_assoc, Nat.sub_sub]
      rw [Nat.sub_sub] at hcovers
      exact ⟨rfl, hcovers⟩
    · have hrun : runLength p (q :: ps) = 0 := by simp [runLength, hnext]
      simp only [hrun, List.drop_zero, Nat.zero_add, Nat.one_mul, ← hp]
      exact ⟨moves_pages_cons hM p _, hcov.2⟩

variable (dir offset) in
/-- One transfer of the DMA engine moves the bytes of its pages. Only the first page of a list can
begin inside a page; no page follows it then. -/
theorem pages_run (hM : ∀ p, dataStart M p = p) {p : Nat} (haligned : ∀ q ∈ ps, q % pageSize = 0)
    (hcov : Covers (p :: ps) remaining) :
    let n := min remaining (ioSize remaining p + runLength p ps * pageSize)
    (pages M dir (p :: ps) remaining offset).flatMap Copy.moves =
        Copy.moves ⟨dir, p, offset, n⟩ ++
          (pages M dir (ps.drop (runLength p ps)) (remaining - n) (u64 (offset + n))).flatMap
            Copy.moves ∧
      Covers (ps.drop (runLength p ps)) (remaining - n) := by
  by_cases hp : p % pageSize = 0
  · have hsize : min remaining (ioSize remaining p + runLength p ps * pageSize) =
        min remaining ((runLength p ps + 1) * pageSize) := by
      rw [ioSize_eq, hp, Nat.add_mul, Nat.one_mul]
      omega
    rw [hsize]
    refine pages_aligned_run hM (fun q hq => ?_) hcov
    rcases List.mem_cons.mp hq with rfl | hq
    · exact hp
    · exact haligned q hq
  · have hrun : runLength p ps = 0 := by
      cases ps with
      | nil => rfl
      | cons q ps =>
        refine if_neg fun hq => hp ?_
        have := haligned q (by simp)
        rw [hq] at this
        unfold u64 pageSize at *
        omega
    have hle := ioSize_le remaining p
    simp only [hrun, Nat.zero_mul, Nat.add_zero, Nat.min_eq_right hle, List.drop_zero]
    exact ⟨moves_pages_cons hM p ps, hcov.2⟩

/-- The loop moves the bytes of the pages in their order. -/
theorem dmaLoop_moves (hM : ∀ p, dataStart M p = p) (hdir : dir ≠ .nowhere) {l : Nat → Nat}
    {numPrps i : Nat} (h : Holds l i ps) (hnum : numPrps + 1 = i + ps.length) (hlen : numPrps ≤ 512)
    (haligned : ∀ q ∈ ps.tail, q % pageSize = 0) (hcov : Covers ps remaining)
    (hf : remaining ≤ fuel) :
    Total (dmaLoop dir l numPrps fuel i remaining offset s) fun s' =>
      s'.copies.flatMap Copy.moves =
        s.copies.flatMap Copy.moves ++ (pages M dir ps remaining offset).flatMap Copy.moves := by
  induction fuel generalizing i ps remaining offset s with
  | zero =>
    obtain rfl : remaining = 0 := by omega
    cases ps with
    | nil => exact .ret (by simp [pages])
    | cons p ps => exact absurd rfl hcov.1
  | succ fuel ih =>
    unfold dmaLoop
    cases ps with
    | nil =>
      obtain rfl : remaining = 0 := hcov
      exact .ret (by simp [pages])
    | cons p ps =>
      rw [List.length_cons] at hnum
      rw [List.tail_cons] at haligned
      obtain ⟨hp, hrest⟩ := h.tail
      obtain ⟨hmoves, hcovers⟩ := pages_run offset dir hM haligned hcov
      have hrun := runLength_le p ps
      have hpos := ioSize_pos (Nat.pos_of_ne_zero hcov.1) p
      rw [if_neg hcov.1]
      refine (Total.ensure (by omega)).bind fun _ _ => ?_
      simp only [hp]
      rw [mergeRun_eq hrest hp (by omega) (by omega)]
      refine (ih (hrest.drop _ hrun) ?_ (fun q hq => ?_) hcovers (by omega)).mono fun s' hs' => ?_
      · rw [List.length_drop]
        omega
      · exact haligned q (List.mem_of_mem_drop (List.mem_of_mem_tail hq))
      · rw [hs', copy_copies hdir, List.flatMap_append, hmoves, List.append_assoc]
        simp

end

end Prp

/-- The walk of a command along its PRPs comes to a NULL `paddr_list`. Whether it does depends on the lengths
only (`Prp.readsNull_iff`), and not on what is copied on the way. -/
def cmdReadsNull (pfnValid : Nat → Bool) (cmd : RwCommand) (host : Mem) : Bool :=
  Prp.readsNull (.remap pfnValid) cmd.prp1 cmd.prp2 host (cmdIoSize cmd) {} (cmdIoSize cmd)

/-- `__do_perform_io`, with its return value and its copies. -/
def doPerformIoCopies (pfnValid : Nat → Bool) (cmd : RwCommand) (ms : Prp.Memories) :
    Except Bug (Nat × Prp.Transfer) := do
  ensure (cmdReadsNull pfnValid cmd ms.host = false) (.nullPointer .doPerformIo)
  let s ← Prp.memcpyLoop (.remap pfnValid) cmd.prp1 cmd.prp2 (ioDir cmd.opcode) (cmdIoSize cmd) {}
    (cmdIoSize cmd) (cmdIoOffset cmd) { ms }
  pure (cmdIoSize cmd, s)

/-- `__do_perform_io_using_dma`. -/
def doPerformIoUsingDma (pfnValid : Nat → Bool) (cmd : RwCommand) (ms : Prp.Memories) :
    Except Bug (Nat × Prp.Transfer) := do
  ensure (cmdReadsNull pfnValid cmd ms.host = false) (.nullPointer .doPerformIoUsingDma)
  let (numPrps, l) ← Prp.gatherPrps (.remap pfnValid) cmd.prp1 cmd.prp2 ms.host (cmdIoSize cmd) {}
    (cmdIoSize cmd) fun _ => 0
  let s ← Prp.dmaLoop (ioDir cmd.opcode) l numPrps (cmdIoSize cmd) 1 (cmdIoSize cmd)
    (cmdIoOffset cmd) { ms }
  pure (cmdIoSize cmd, s)

/-! ## Both paths -/

/-- The PRPs of a command. -/
def cmdPrps (pfnValid : Nat → Bool) (cmd : RwCommand) (host : Mem) : List Nat :=
  Prp.prps (.remap pfnValid) cmd.prp1 cmd.prp2 host (cmdIoSize cmd) {} (cmdIoSize cmd)

/-- No list entry of a command is among the bytes of its data that come before the page of the entry. -/
def CmdListApart (pfnValid : Nat → Bool) (cmd : RwCommand) (host : Mem) : Prop :=
  Prp.ListApart (.remap pfnValid) cmd.prp1 cmd.prp2 host (cmdIoSize cmd) {} (cmdIoSize cmd)

/-- The bytes that a command has to move, in the order of its PRPs. -/
def dataMoves (pfnValid : Nat → Bool) (cmd : RwCommand) (host : Mem) : List Prp.Move :=
  (List.range (cmdIoSize cmd)).map fun k =>
    { dir := ioDir cmd.opcode
      host := cmdDataAddr pfnValid cmd host k
      storage := u64 (cmdIoOffset cmd + k) }

/-- A path returns the length and has moved these bytes. -/
def MovesData (pfnValid : Nat → Bool) (cmd : RwCommand) (host : Mem) (r : Nat × Prp.Transfer) : Prop :=
  r.1 = cmdIoSize cmd ∧ r.2.copies.flatMap Prp.Copy.moves = dataMoves pfnValid cmd host

section

variable {pfnValid : Nat → Bool} {cmd : RwCommand} {ms : Prp.Memories}

/-- `doPerformIoCopies` does what `doPerformIo` does. -/
theorem doPerformIoCopies_ms :
    Partial (doPerformIoCopies pfnValid cmd ms) fun r => r.2.ms = doPerformIo pfnValid cmd ms :=
  Partial.ensure.bind fun _ _ => Prp.memcpyLoop_ms.bind fun _ hs => .ret hs

/-- PRPs at the start of their pages do not lead to a NULL list. -/
theorem cmdReadsNull_of_aligned {host : Mem}
    (haligned : ∀ p ∈ (cmdPrps pfnValid cmd host).tail, p % pageSize = 0) :
    cmdReadsNull pfnValid cmd host = false := by
  rw [← Bool.not_eq_true]
  unfold cmdReadsNull
  rw [Prp.readsNull_iff (fun _ => rfl) (Nat.le_refl _)]
  rintro ⟨hpage, hlong⟩
  -- the data is longer than the first page, so that the second PRP is used
  have hmem : cmd.prp2 ∈ (cmdPrps pfnValid cmd host).tail := by
    unfold cmdPrps
    generalize cmdIoSize cmd = size at hpage hlong ⊢
    have hcap := Nat.mod_lt cmd.prp1 (show 0 < pageSize by decide)
    have hsize : Prp.ioSize size cmd.prp1 = Prp.firstPage cmd.prp1 := by
      rw [Prp.ioSize_eq]
      unfold Prp.firstPage at hlong ⊢
      omega
    have hcap1 : 0 < Prp.firstPage cmd.prp1 := by
      unfold Prp.firstPage
      omega
    obtain ⟨n, rfl⟩ : ∃ n, size = n + 1 + 1 := ⟨size - 2, by omega⟩
    rw [Prp.prps_succ (by omega), List.tail_cons]
    have hnext : Prp.nextPrp (.remap pfnValid) cmd.prp1 cmd.prp2 host (n + 1 + 1) {} =
        (cmd.prp1, { prpOffs := 1 }) := rfl
    rw [hnext, hsize, Prp.prps_succ (by omega)]
    refine List.mem_cons.mpr (.inl ?_)
    unfold Prp.nextPrp
    dsimp only
    rw [if_neg (by decide), if_pos rfl, if_neg (by omega)]
  have := haligned _ hmem
  omega

theorem dataStart_of_valid (h : ∀ pfn, pfnValid pfn = true) (paddr : Nat) :
    Prp.dataStart (.remap pfnValid) paddr = paddr := by
  unfold Prp.dataStart Prp.Mapping.remap
  simp only [h, ↓reduceIte]
  exact Nat.div_add_mod' paddr pageSize

theorem ioDir_ne_nowhere (hop : cmd.opcode = .write ∨ cmd.opcode = .zoneAppend ∨ cmd.opcode = .read) :
    ioDir cmd.opcode ≠ .nowhere := by
  rcases hop with h | h | h <;> rw [h] <;> decide

/-- Each byte of the storage is moved once. -/
theorem nodup_dataMoves (pfnValid : Nat → Bool) (cmd : RwCommand) (host : Mem) :
    ((dataMoves pfnValid cmd host).map (·.storage)).Nodup := by
  have hle := cmdIoSize_le cmd
  unfold dataMoves
  rw [List.map_map]
  refine List.Nodup.map_on (fun k hk k' hk' heq => ?_) List.nodup_range
  rw [List.mem_range] at hk hk'
  simp only [comp_apply] at heq
  unfold u64 at heq
  omega

theorem doPerformIoCopies_moves
    (hop : cmd.opcode = .write ∨ cmd.opcode = .zoneAppend ∨ cmd.opcode = .read)
    (haligned : ∀ p ∈ (cmdPrps pfnValid cmd ms.host).tail, p % pageSize = 0)
    (hapart : cmd.opcode = .read → CmdListApart pfnValid cmd ms.host) :
    Total (doPerformIoCopies pfnValid cmd ms) (MovesData pfnValid cmd ms.host) := by
  have hread : ioDir cmd.opcode = .toHost → cmd.opcode = .read := by
    rcases hop with h | h | h <;> rw [h] <;> decide
  have hloop : Total (Prp.memcpyLoop (.remap pfnValid) cmd.prp1 cmd.prp2 (ioDir cmd.opcode)
      (cmdIoSize cmd) {} (cmdIoSize cmd) (cmdIoOffset cmd) { ms }) fun s => s.copies =
        [] ++ Prp.pages (.remap pfnValid) (ioDir cmd.opcode) (cmdPrps pfnValid cmd ms.host)
          (cmdIoSize cmd) (cmdIoOffset cmd) :=
    Prp.memcpyLoop_copies (ioDir_ne_nowhere hop) (Nat.le_refl _) fun hd => hapart (hread hd)
  refine (Total.ensure (cmdReadsNull_of_aligned haligned)).bind fun _ _ => ?_
  refine hloop.bind fun s hs => .ret ⟨rfl, ?_⟩
  rw [hs, List.nil_append]
  exact Prp.moves_pages (Nat.le_refl _)

theorem doPerformIoUsingDma_moves
    (hop : cmd.opcode = .write ∨ cmd.opcode = .zoneAppend ∨ cmd.opcode = .read)
    (hpfn : ∀ pfn, pfnValid pfn = true)
    (haligned : ∀ p ∈ (cmdPrps pfnValid cmd ms.host).tail, p % pageSize = 0)
    (hlen : (cmdPrps pfnValid cmd ms.host).tail.length ≤ 511) :
    Total (doPerformIoUsingDma pfnValid cmd ms) (MovesData pfnValid cmd ms.host) := by
  refine (Total.ensure (cmdReadsNull_of_aligned haligned)).bind fun _ _ => ?_
  unfold cmdPrps at haligned hlen
  rw [List.length_tail] at hlen
  refine (Prp.gatherPrps_ok (l := fun _ => 0) (Nat.le_refl _) (by simp only []; omega)).bind ?_
  rintro ⟨numPrps, l⟩ ⟨hnum, hholds, -⟩
  simp only [Nat.zero_add] at hnum hholds
  refine (Prp.dmaLoop_moves (M := .remap pfnValid) (dataStart_of_valid hpfn) (ioDir_ne_nowhere hop)
    hholds (by omega) (by omega) haligned (Prp.prps_covers (Nat.le_refl _)) (Nat.le_refl _)).bind
    fun s hs => .ret ⟨rfl, ?_⟩
  simp only [List.flatMap_nil, List.nil_append] at hs
  rw [hs, Prp.moves_pages (Nat.le_refl _)]
  rfl

/-- Both paths return and move the bytes of the data in the order of the PRPs, each byte of the
storage once. -/
theorem data_paths_agree
    (hop : cmd.opcode = .write ∨ cmd.opcode = .zoneAppend ∨ cmd.opcode = .read)
    (hpfn : ∀ pfn, pfnValid pfn = true)
    (haligned : ∀ p ∈ (cmdPrps pfnValid cmd ms.host).tail, p % pageSize = 0)
    (hlen : (cmdPrps pfnValid cmd ms.host).tail.length ≤ 511)
    (hapart : cmd.opcode = .read → CmdListApart pfnValid cmd ms.host) :
    Total (doPerformIoCopies pfnValid cmd ms) (MovesData pfnValid cmd ms.host) ∧
      Total (doPerformIoUsingDma pfnValid cmd ms) (MovesData pfnValid cmd ms.host) ∧
      ((dataMoves pfnValid cmd ms.host).map (·.storage)).Nodup :=
  ⟨doPerformIoCopies_moves hop haligned hapart, doPerformIoUsingDma_moves hop hpfn haligned hlen,
    nodup_dataMoves _ _ _⟩

end

/-- A read of three pages whose PRP list is at `prp2`. -/
def listRead (prp2 : Nat) : RwCommand := { opcode := .read, slba := 0, length := 23, prp1 := 4096, prp2 }

/-- A host memory with the list of the pages at 8192 and 12288 at the address `list`. -/
def listHost (list : Nat) : Mem := fun a =>
  if a = list + 1 then 0x20 else if a = list + 9 then 0x30 else 0

/-- The list is behind the pages of data, which the DMA engine moves as one run. -/
theorem data_paths_agree_list :
    Total (doPerformIoCopies (fun _ => true) (listRead 32768) ⟨listHost 32768, fun _ => 1⟩)
        (MovesData (fun _ => true) (listRead 32768) (listHost 32768)) ∧
      Total (doPerformIoUsingDma (fun _ => true) (listRead 32768) ⟨listHost 32768, fun _ => 1⟩)
        (MovesData (fun _ => true) (listRead 32768) (listHost 32768)) ∧
      ((dataMoves (fun _ => true) (listRead 32768) (listHost 32768)).map (·.storage)).Nodup := by
  refine data_paths_agree (.inr (.inr rfl)) (fun _ => rfl) (by decide +kernel) (by decide +kernel)
    fun _ => Prp.listApart_of_pages fun p hp a ha i hi k hk => ?_
  have hprps : cmdPrps (fun _ => true) (listRead 32768) (listHost 32768) = [4096, 8192, 12288] := by
    decide +kernel
  have hlist : Prp.listAddrs (.remap fun _ => true) (listRead 32768).prp1 (listRead 32768).prp2
      (listHost 32768) (cmdIoSize (listRead 32768)) {} (cmdIoSize (listRead 32768)) = [32768, 32776] := by
    decide +kernel
  have hp : p ∈ cmdPrps (fun _ => true) (listRead 32768) (listHost 32768) := hp
  rw [hprps] at hp
  rw [hlist] at ha
  rw [dataStart_of_valid fun _ => rfl]
  simp only [List.mem_cons, List.not_mem_nil, or_false] at hp ha
  unfold pageSize at hk
  unfold u64
  omega

/-- A read of zeros over its own list, at the beginning of its first page. The DMA engine moves the
second page to the address in the list, `memcpy` to the address 0. -/
theorem read_over_own_list :
    (∀ p ∈ (cmdPrps (fun _ => true) (listRead 4096) (listHost 4096)).tail, p % pageSize = 0) ∧
      (cmdPrps (fun _ => true) (listRead 4096) (listHost 4096)).tail.length ≤ 511 ∧
      Total (doPerformIoCopies (fun _ => true) (listRead 4096) ⟨listHost 4096, fun _ => 0⟩)
        (fun r => ⟨.toHost, 8192, 4096⟩ ∉ r.2.copies.flatMap Prp.Copy.moves) ∧
      Total (doPerformIoUsingDma (fun _ => true) (listRead 4096) ⟨listHost 4096, fun _ => 0⟩)
        (fun r => ⟨.toHost, 8192, 4096⟩ ∈ r.2.copies.flatMap Prp.Copy.moves) := by
  refine ⟨by decide +kernel, by decide +kernel, ?_, ?_⟩
  · obtain ⟨r, hr, hcopies⟩ :
        Total (doPerformIoCopies (fun _ => true) (listRead 4096) ⟨listHost 4096, fun _ => 0⟩) fun r =>
          r.2.copies = [⟨.toHost, 4096, 0, 4096⟩, ⟨.toHost, 0, 4096, 4096⟩, ⟨.toHost, 0, 8192, 4096⟩] := by
      decide +kernel
    refine ⟨r, hr, ?_⟩
    simp only [hcopies, List.mem_flatMap, Prp.mem_moves, Prp.Move.mk.injEq]
    rintro ⟨c, hc, k, hk, -, hhost, hstorage⟩
    simp only [List.mem_cons, List.not_mem_nil, or_false] at hc
    unfold u64 at hhost hstorage
    rcases hc with rfl | rfl | rfl <;> simp only [] at hk hhost hstorage <;> omega
  · obtain ⟨r, hr, hcopies⟩ :
        Total (doPerformIoUsingDma (fun _ => true) (listRead 4096) ⟨listHost 4096, fun _ => 0⟩) fun r =>
          r.2.copies = [⟨.toHost, 4096, 0, 12288⟩] := by
      decide +kernel
    refine ⟨r, hr, ?_⟩
    simp only [hcopies, List.mem_flatMap, Prp.mem_moves, List.mem_singleton, exists_eq_left]
    exact ⟨4096, by decide, rfl⟩

end Nvmev
