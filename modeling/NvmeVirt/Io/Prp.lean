import NvmeVirt.Lib.Bytes
import NvmeVirt.Nvme

/-!
# Data transfer along PRP lists

The copy loops of `__do_perform_io` (`io.c`) and `__do_perform_kv_io` (`kv_ftl.c`). Both walk the
PRPs of a command page by page; they differ in how they map a physical address (`Mapping`). The
host memory is byte-addressed by physical address, and the storage by offset; the host's buffers
are not in the reserved memory behind the storage.

`transfer_toStorage`: whatever the PRPs are, the loop copies `remaining` bytes, the ones that
`dataAddr` finds in the host memory, to the storage.

A host can have the loop read `paddr_list` where it is NULL, and the kernel faults there. `readsNull_iff`
says for which PRPs: the second one is not at the start of its page and the data goes on behind this page,
but is too short for a list.
-/

namespace Nvmev

open CInt Bytes

/-- `PAGE_SIZE`. -/
def pageSize : Nat := 4096

namespace Prp

/-- How a physical address is mapped: the address of `paddr_list[0]`, for a PRP list at `paddr`, and
the address that `vaddr` stands for, for a page at `paddr`. -/
structure Mapping where
  list : Nat → Nat
  page : Nat → Nat

/-- `kmap_atomic_pfn(PRP_PFN(paddr))` maps the page of `paddr`. -/
def Mapping.kmap : Mapping where
  list paddr := paddr / pageSize * pageSize + paddr % pageSize
  page paddr := paddr / pageSize * pageSize

/-- As `kmap`, but a page without a page frame is mapped with `memremap`, from `paddr` on; the
offset of a list is then added to a `u64` pointer. -/
def Mapping.remap (pfnValid : Nat → Bool) : Mapping where
  list paddr :=
    if pfnValid (paddr / pageSize) then paddr / pageSize * pageSize + paddr % pageSize
    else paddr + 8 * (paddr % pageSize)
  page paddr := if pfnValid (paddr / pageSize) then paddr / pageSize * pageSize else paddr

/-- `prp_offs`, `prp2_offs` and `paddr_list`. -/
structure Cursor where
  prpOffs : Nat := 0
  prp2Offs : Nat := 0
  paddrList : Nat := 0

/-- The next PRP is in a list, but `paddr_list` is NULL, since the second PRP was a page. -/
def Cursor.nullList (c : Cursor) : Prop := 2 ≤ c.prpOffs ∧ c.prp2Offs = 0

instance (c : Cursor) : Decidable c.nullList := inferInstanceAs (Decidable (_ ∧ _))

/-- Whether the loop copies to the storage, to the host, or not at all. -/
inductive Dir where
  | toStorage | toHost | nowhere
  deriving DecidableEq, Repr

/-- The two memories that the loop copies between. -/
structure Memories where
  host : Mem
  storage : Mem

section Walk

variable (M : Mapping) (prp1 prp2 : Nat)

/-- The address of the next page of data, and the cursor after it, where `paddr_list` is not NULL. -/
def nextPrp (host : Mem) (remaining : Nat) (c : Cursor) : Nat × Cursor :=
  let prpOffs := c.prpOffs + 1
  if prpOffs = 1 then (prp1, { c with prpOffs })
  else if prpOffs = 2 then
    if remaining > pageSize then
      let paddrList := M.list prp2
      (readU64 host (paddrList + 8 * c.prp2Offs), { prpOffs, prp2Offs := c.prp2Offs + 1, paddrList })
    else (prp2, { c with prpOffs })
  else
    (readU64 host (c.paddrList + 8 * c.prp2Offs), { c with prpOffs, prp2Offs := c.prp2Offs + 1 })

/-- `io_size`: the bytes to copy from or to the page at `paddr`. -/
def ioSize (remaining paddr : Nat) : Nat :=
  let size := min remaining pageSize
  let memOffs := paddr % pageSize
  if memOffs ≠ 0 ∧ size + memOffs > pageSize then pageSize - memOffs else size

/-- `vaddr + mem_offs`. -/
def dataStart (paddr : Nat) : Nat := M.page paddr + paddr % pageSize

/-- The loop. Each turn copies at least one byte, so `remaining` bounds the turns. -/
def transfer (dir : Dir) : Nat → Cursor → Nat → Nat → Memories → Memories
  | 0, _, _, _, ms => ms
  | fuel + 1, c, remaining, offset, ms =>
    if remaining = 0 then ms
    else
      let (paddr, c) := nextPrp M prp1 prp2 ms.host remaining c
      let size := ioSize remaining paddr
      let start := dataStart M paddr
      let ms := match dir with
        | .toStorage =>
          { ms with storage := copyIn ms.storage offset (fun k => ms.host (u64 (start + k))) size }
        | .toHost =>
          { ms with host := copyIn ms.host start (fun k => ms.storage (u64 (offset + k))) size }
        | .nowhere => ms
      transfer dir fuel c (remaining - size) (u64 (offset + size)) ms

/-- The address of byte `k` of the data that the PRPs describe. -/
def dataAddr (host : Mem) : Nat → Cursor → Nat → Nat → Nat
  | 0, _, _, _ => 0
  | fuel + 1, c, remaining, k =>
    let (paddr, c) := nextPrp M prp1 prp2 host remaining c
    let size := ioSize remaining paddr
    if k < size then u64 (dataStart M paddr + k)
    else dataAddr host fuel c (remaining - size) (k - size)

/-- The address of the list entry that `nextPrp` reads, if it reads one. -/
def entryAddr (remaining : Nat) (c : Cursor) : List Nat :=
  if c.prpOffs = 0 then []
  else if c.prpOffs = 1 then
    if remaining > pageSize then [M.list prp2 + 8 * c.prp2Offs] else []
  else [c.paddrList + 8 * c.prp2Offs]

/-- The addresses of the list entries that the loop reads. -/
def listAddrs (host : Mem) : Nat → Cursor → Nat → List Nat
  | 0, _, _ => []
  | fuel + 1, c, remaining =>
    if remaining = 0 then []
    else
      let (paddr, c') := nextPrp M prp1 prp2 host remaining c
      entryAddr M prp2 remaining c ++ listAddrs host fuel c' (remaining - ioSize remaining paddr)

/-- Whether the loop comes to a NULL `paddr_list`. -/
def readsNull (host : Mem) : Nat → Cursor → Nat → Bool
  | 0, _, _ => false
  | fuel + 1, c, remaining =>
    if remaining = 0 then false
    else if c.nullList then true
    else
      let (paddr, c) := nextPrp M prp1 prp2 host remaining c
      readsNull host fuel c (remaining - ioSize remaining paddr)

/-- The PRPs describe a buffer: its bytes are at different addresses, and none of them is in a list
entry. -/
structure IsBuffer (host : Mem) (fuel : Nat) (c : Cursor) (remaining : Nat) : Prop where
  inj : ∀ k < remaining, ∀ k' < remaining,
    dataAddr M prp1 prp2 host fuel c remaining k = dataAddr M prp1 prp2 host fuel c remaining k' →
      k = k'
  apart : ∀ a ∈ listAddrs M prp1 prp2 host fuel c remaining, ∀ i < 8, ∀ k < remaining,
    a + i ≠ dataAddr M prp1 prp2 host fuel c remaining k

end Walk

theorem ioSize_pos {remaining : Nat} (h : 0 < remaining) (paddr : Nat) : 0 < ioSize remaining paddr := by
  have := Nat.mod_lt paddr (show 0 < pageSize by decide)
  have hp : 0 < pageSize := by decide
  unfold ioSize
  simp only []
  split <;> omega

theorem ioSize_le (remaining paddr : Nat) : ioSize remaining paddr ≤ remaining := by
  unfold ioSize
  simp only []
  split <;> omega

/-- A transfer to the storage. -/
theorem transfer_toStorage (M : Mapping) (prp1 prp2 : Nat) {fuel remaining : Nat} (c : Cursor)
    (offset : Nat) (ms : Memories) (hf : remaining ≤ fuel) (hr : remaining ≤ 2 ^ 64) :
    transfer M prp1 prp2 .toStorage fuel c remaining offset ms =
      { ms with
        storage := copyIn ms.storage offset
          (fun k => ms.host (dataAddr M prp1 prp2 ms.host fuel c remaining k)) remaining } := by
  induction fuel generalizing c remaining offset ms with
  | zero =>
    obtain rfl : remaining = 0 := by omega
    simp [transfer]
  | succ fuel ih =>
    unfold transfer
    by_cases h0 : remaining = 0
    · subst h0
      simp
    rw [if_neg h0]
    simp only []
    have hpos := ioSize_pos (Nat.pos_of_ne_zero h0) (nextPrp M prp1 prp2 ms.host remaining c).1
    have hle := ioSize_le remaining (nextPrp M prp1 prp2 ms.host remaining c).1
    rw [ih _ _ _ (by omega) (by omega)]
    simp only []
    rw [copyIn_copyIn _ _ _ _ (by omega), show ∀ a b : Nat, a ≤ b → a + (b - a) = b by omega]
    · congr 1
      refine copyIn_congr fun k _ => ?_
      conv_rhs => rw [dataAddr]
      simp only []
      split <;> rfl
    · exact hle

section ToHost

variable {M : Mapping} {prp1 prp2 : Nat} {host host' : Mem} {remaining : Nat} {c c' : Cursor}
  {fuel paddr : Nat}

theorem nextPrp_congr (h : ∀ a ∈ entryAddr M prp2 remaining c, ∀ i < 8, host' (a + i) = host (a + i)) :
    nextPrp M prp1 prp2 host' remaining c = nextPrp M prp1 prp2 host remaining c := by
  unfold entryAddr at h
  unfold nextPrp
  simp only []
  by_cases h0 : c.prpOffs = 0
  · simp [h0]
  by_cases h1 : c.prpOffs = 1
  · by_cases hr : remaining > pageSize
    · have := readU64_congr (h (M.list prp2 + 8 * c.prp2Offs) (by simp [h1, hr]))
      simp [h1, hr, this]
    · simp [h1, hr]
  · have := readU64_congr (h (c.paddrList + 8 * c.prp2Offs) (by simp [h0, h1]))
    simp [h0, h1, this]

theorem listAddrs_succ (h0 : remaining ≠ 0)
    (hn : nextPrp M prp1 prp2 host remaining c = (paddr, c')) :
    listAddrs M prp1 prp2 host (fuel + 1) c remaining = entryAddr M prp2 remaining c ++
      listAddrs M prp1 prp2 host fuel c' (remaining - ioSize remaining paddr) := by
  simp [listAddrs, h0, hn]

/-- The bytes of the next page. -/
theorem dataAddr_page (hn : nextPrp M prp1 prp2 host remaining c = (paddr, c')) {k : Nat}
    (hk : k < ioSize remaining paddr) :
    dataAddr M prp1 prp2 host (fuel + 1) c remaining k = u64 (dataStart M paddr + k) := by
  simp [dataAddr, hn, hk]

/-- The bytes after the next page. -/
theorem dataAddr_add (hn : nextPrp M prp1 prp2 host remaining c = (paddr, c')) (k : Nat) :
    dataAddr M prp1 prp2 host (fuel + 1) c remaining (ioSize remaining paddr + k) =
      dataAddr M prp1 prp2 host fuel c' (remaining - ioSize remaining paddr) k := by
  have : ¬ ioSize remaining paddr + k < ioSize remaining paddr := by omega
  simp [dataAddr, hn, this]

/-- The walk reads nothing of the host memory but the list entries. -/
theorem walk_congr
    (h : ∀ a ∈ listAddrs M prp1 prp2 host fuel c remaining, ∀ i < 8, host' (a + i) = host (a + i)) :
    (∀ k < remaining, dataAddr M prp1 prp2 host' fuel c remaining k =
      dataAddr M prp1 prp2 host fuel c remaining k) ∧
    listAddrs M prp1 prp2 host' fuel c remaining = listAddrs M prp1 prp2 host fuel c remaining := by
  induction fuel generalizing c remaining with
  | zero => exact ⟨fun _ _ => rfl, rfl⟩
  | succ fuel ih =>
    by_cases h0 : remaining = 0
    · subst h0
      exact ⟨fun k hk => by omega, by simp [listAddrs]⟩
    rcases hn : nextPrp M prp1 prp2 host remaining c with ⟨paddr, c'⟩
    rw [listAddrs_succ h0 hn] at h
    have hn' : nextPrp M prp1 prp2 host' remaining c = (paddr, c') := by
      rw [← hn]
      exact nextPrp_congr fun a ha => h a (List.mem_append_left _ ha)
    obtain ⟨hdata, hlist⟩ := ih fun a ha => h a (List.mem_append_right _ ha)
    refine ⟨fun k hk => ?_, by rw [listAddrs_succ h0 hn, listAddrs_succ h0 hn', hlist]⟩
    simp only [dataAddr, hn, hn']
    split
    · rfl
    · exact hdata _ (by omega)

/-- The rest of a buffer after its first page. -/
theorem IsBuffer.rest (h : IsBuffer M prp1 prp2 host (fuel + 1) c remaining) (h0 : remaining ≠ 0)
    (hn : nextPrp M prp1 prp2 host remaining c = (paddr, c')) :
    IsBuffer M prp1 prp2 host fuel c' (remaining - ioSize remaining paddr) := by
  have hle := ioSize_le remaining paddr
  constructor
  · intro k hk k' hk' heq
    rw [← dataAddr_add hn, ← dataAddr_add hn] at heq
    have := h.inj _ (by omega) _ (by omega) heq
    omega
  · intro a ha i hi k hk
    rw [← dataAddr_add hn]
    refine h.apart a ?_ i hi _ (by omega)
    rw [listAddrs_succ h0 hn]
    exact List.mem_append_right _ ha

theorem IsBuffer.congr (h : IsBuffer M prp1 prp2 host fuel c remaining)
    (hlist : ∀ a ∈ listAddrs M prp1 prp2 host fuel c remaining, ∀ i < 8,
      host' (a + i) = host (a + i)) : IsBuffer M prp1 prp2 host' fuel c remaining := by
  obtain ⟨hdata, hl⟩ := walk_congr hlist
  constructor
  · intro k hk k' hk' heq
    rw [hdata k hk, hdata k' hk'] at heq
    exact h.inj k hk k' hk' heq
  · intro a ha i hi k hk
    rw [hl] at ha
    rw [hdata k hk]
    exact h.apart a ha i hi k hk

/-- A transfer to a buffer of the host. -/
theorem transfer_toHost (offset : Nat) (ms : Memories)
    (h : IsBuffer M prp1 prp2 ms.host fuel c remaining) (hf : remaining ≤ fuel)
    (hr : remaining ≤ 2 ^ 64) :
    (∀ k < remaining, (transfer M prp1 prp2 .toHost fuel c remaining offset ms).host
      (dataAddr M prp1 prp2 ms.host fuel c remaining k) = ms.storage (u64 (offset + k))) ∧
    ∀ a, (∀ k < remaining, a ≠ dataAddr M prp1 prp2 ms.host fuel c remaining k) →
      (transfer M prp1 prp2 .toHost fuel c remaining offset ms).host a = ms.host a := by
  induction fuel generalizing c remaining offset ms with
  | zero =>
    obtain rfl : remaining = 0 := by omega
    exact ⟨fun k hk => by omega, fun _ _ => rfl⟩
  | succ fuel ih =>
    by_cases h0 : remaining = 0
    · subst h0
      simp [transfer]
    rcases hn : nextPrp M prp1 prp2 ms.host remaining c with ⟨paddr, c'⟩
    have hpos := ioSize_pos (Nat.pos_of_ne_zero h0) paddr
    have hle := ioSize_le remaining paddr
    unfold transfer
    rw [if_neg h0, hn]
    simp only []
    generalize hhost : copyIn ms.host (dataStart M paddr)
      (fun k => ms.storage (u64 (offset + k))) (ioSize remaining paddr) = host₁
    -- The page is no list entry, so the walk goes on as in the old memory.
    have hpage {a : Nat} (ha : ∀ k < ioSize remaining paddr, a ≠ u64 (dataStart M paddr + k)) :
        host₁ a = ms.host a := by
      rw [← hhost]
      exact copyIn_of_ne ha
    have hlist : ∀ a ∈ listAddrs M prp1 prp2 ms.host fuel c' (remaining - ioSize remaining paddr),
        ∀ i < 8, host₁ (a + i) = ms.host (a + i) := by
      intro a ha i hi
      refine hpage fun k hk => ?_
      rw [← dataAddr_page hn hk]
      refine h.apart a ?_ i hi k (by omega)
      rw [listAddrs_succ h0 hn]
      exact List.mem_append_right _ ha
    have hdata := (walk_congr hlist).1
    obtain ⟨hin, hout⟩ := ih (u64 (offset + ioSize remaining paddr))
      { ms with host := host₁ } ((h.rest h0 hn).congr hlist) (by omega) (by omega)
    simp only [] at hin hout
    refine ⟨fun k hk => ?_, fun a ha => ?_⟩
    · by_cases hks : k < ioSize remaining paddr
      · have hwritten : host₁ (u64 (dataStart M paddr + k)) = ms.storage (u64 (offset + k)) := by
          rw [← hhost]
          exact copyIn_add hks (by omega)
        rw [dataAddr_page hn hks, hout _ ?_, hwritten]
        intro k' hk' heq
        rw [hdata k' hk', ← dataAddr_add hn, ← dataAddr_page hn hks] at heq
        have := h.inj k hk _ (by omega) heq
        omega
      · obtain ⟨k', rfl⟩ : ∃ k', k = ioSize remaining paddr + k' := ⟨k - ioSize remaining paddr, by omega⟩
        rw [dataAddr_add hn, ← hdata k' (by omega), hin k' (by omega)]
        congr 1
        unfold u64
        omega
    · rw [hout, hpage]
      · intro k hk
        rw [← dataAddr_page hn hk]
        exact ha k (by omega)
      · intro k hk
        rw [hdata k hk, ← dataAddr_add hn]
        exact ha _ (by omega)

/-! The loop walks along the PRPs by the bytes that it copies. Where these are fewer than the bytes
of the buffer, it may take the pointer to a PRP list for a page. -/

/-- A walk along the first `l` bytes of a buffer of `b` bytes finds the bytes and the list entries
where the buffer has them. -/
def Follows (M : Mapping) (prp1 prp2 : Nat) (host : Mem) (c : Cursor) (l b : Nat) : Prop :=
  ∀ fuel fuel', l ≤ fuel → b ≤ fuel' →
    (∀ k < l, dataAddr M prp1 prp2 host fuel c l k = dataAddr M prp1 prp2 host fuel' c b k) ∧
    ∀ a ∈ listAddrs M prp1 prp2 host fuel c l, a ∈ listAddrs M prp1 prp2 host fuel' c b

variable {l b : Nat}

theorem ioSize_eq (remaining paddr : Nat) :
    ioSize remaining paddr = min remaining (pageSize - paddr % pageSize) := by
  have := Nat.mod_lt paddr (show 0 < pageSize by decide)
  unfold ioSize
  simp only []
  split <;> omega

theorem listAddrs_zero (fuel : Nat) : listAddrs M prp1 prp2 host fuel c 0 = [] := by
  cases fuel <;> simp [listAddrs]

theorem Follows.step (hlb : l ≤ b) (hn : nextPrp M prp1 prp2 host l c = (paddr, c'))
    (hn' : nextPrp M prp1 prp2 host b c = (paddr, c'))
    (he : entryAddr M prp2 l c = entryAddr M prp2 b c)
    (h : pageSize - paddr % pageSize < l → Follows M prp1 prp2 host c'
      (l - (pageSize - paddr % pageSize)) (b - (pageSize - paddr % pageSize))) :
    Follows M prp1 prp2 host c l b := by
  intro fuel fuel' hf hf'
  by_cases h0 : l = 0
  · subst h0
    simp [listAddrs_zero]
  obtain ⟨n, rfl⟩ : ∃ n, fuel = n + 1 := ⟨fuel - 1, by omega⟩
  obtain ⟨n', rfl⟩ : ∃ n', fuel' = n' + 1 := ⟨fuel' - 1, by omega⟩
  have hcap : 0 < pageSize - paddr % pageSize := by
    have := Nat.mod_lt paddr (show 0 < pageSize by decide)
    omega
  rw [listAddrs_succ h0 hn, listAddrs_succ (by omega) hn', he]
  by_cases hl : pageSize - paddr % pageSize < l
  · have hsl : ioSize l paddr = pageSize - paddr % pageSize := by rw [ioSize_eq]; omega
    have hsb : ioSize b paddr = pageSize - paddr % pageSize := by rw [ioSize_eq]; omega
    obtain ⟨hdata, hlist⟩ := h hl n n' (by omega) (by omega)
    refine ⟨fun k hk => ?_, fun a ha => ?_⟩
    · simp only [dataAddr, hn, hn', hsl, hsb]
      split
      · rfl
      · exact hdata _ (by omega)
    · rw [hsl] at ha
      rw [hsb]
      rcases List.mem_append.mp ha with ha | ha
      · exact List.mem_append_left _ ha
      · exact List.mem_append_right _ (hlist a ha)
  · have hsl : ioSize l paddr = l := by rw [ioSize_eq]; omega
    refine ⟨fun k hk => ?_, fun a ha => ?_⟩
    · rw [dataAddr_page hn (by omega), dataAddr_page hn' (by rw [ioSize_eq]; omega)]
    · rw [hsl, Nat.sub_self, listAddrs_zero, List.append_nil] at ha
      exact List.mem_append_left _ ha

/-- Once the walk reads a list, it goes on to. -/
theorem follows_list (hlb : l ≤ b) (hc : 2 ≤ c.prpOffs) : Follows M prp1 prp2 host c l b := by
  induction l using Nat.strong_induction_on generalizing b c with
  | _ l ih =>
    rcases hn : nextPrp M prp1 prp2 host l c with ⟨paddr, c'⟩
    have hcap : 0 < pageSize - paddr % pageSize := by
      have := Nat.mod_lt paddr (show 0 < pageSize by decide)
      omega
    have hc' : c'.prpOffs = c.prpOffs + 1 := by
      rw [show c' = (nextPrp M prp1 prp2 host l c).2 by rw [hn]]
      simp [nextPrp, show c.prpOffs ≠ 0 by omega, show c.prpOffs ≠ 1 by omega]
    refine Follows.step hlb hn ?_ ?_ fun hl => ih _ (by omega) (by omega) (by omega)
    · rw [← hn]
      simp [nextPrp, show c.prpOffs ≠ 0 by omega, show c.prpOffs ≠ 1 by omega]
    · simp [entryAddr, show c.prpOffs ≠ 0 by omega, show c.prpOffs ≠ 1 by omega]

/-- The bytes of the page of `prp1`. -/
def firstPage (prp1 : Nat) : Nat := pageSize - prp1 % pageSize

/-- The data goes on behind the page of `prp2`, but is too short for `prp2` to be a list. `c` is where the
walk is. -/
def NullList (prp1 prp2 : Nat) (c : Cursor) (remaining : Nat) : Prop :=
  if c.prpOffs = 0 then
    remaining - firstPage prp1 ≤ pageSize ∧ pageSize - prp2 % pageSize < remaining - firstPage prp1
  else if c.prpOffs = 1 then remaining ≤ pageSize ∧ pageSize - prp2 % pageSize < remaining
  else c.prp2Offs = 0 ∧ remaining ≠ 0

instance (prp1 prp2 : Nat) (c : Cursor) (remaining : Nat) : Decidable (NullList prp1 prp2 c remaining) := by
  unfold NullList
  infer_instance

theorem NullList.of_cursor (h : c.nullList) (h0 : remaining ≠ 0) : NullList prp1 prp2 c remaining := by
  obtain ⟨htwo, hoffs⟩ := h
  unfold NullList
  rw [if_neg (by omega), if_neg (by omega)]
  exact ⟨hoffs, h0⟩

/-- The walk has read no list entry before the second PRP. -/
def Cursor.Fresh (c : Cursor) : Prop := c.prpOffs < 2 → c.prp2Offs = 0

theorem Cursor.Fresh.next (hc : c.Fresh) (hn : nextPrp M prp1 prp2 host remaining c = (paddr, c')) :
    c'.Fresh := by
  intro hlt
  unfold nextPrp at hn
  dsimp only at hn
  by_cases h0 : c.prpOffs = 0
  · rw [if_pos (by omega)] at hn
    cases hn
    exact hc (by omega)
  · by_cases h1 : c.prpOffs = 1
    · rw [if_neg (by omega), if_pos (by omega)] at hn
      split at hn <;> cases hn <;> dsimp only at hlt <;> omega
    · rw [if_neg (by omega), if_neg (by omega)] at hn
      cases hn
      dsimp only at hlt
      omega

/-- It stays so along the walk, up to the NULL pointer. -/
theorem nullList_next (hc : c.Fresh) (hn : nextPrp M prp1 prp2 host remaining c = (paddr, c'))
    (h : ¬ c.nullList) :
    NullList prp1 prp2 c' (remaining - ioSize remaining paddr) ↔ NullList prp1 prp2 c remaining := by
  have hcap := Nat.mod_lt paddr (show 0 < pageSize by decide)
  have hcap2 := Nat.mod_lt prp2 (show 0 < pageSize by decide)
  rw [ioSize_eq]
  unfold nextPrp at hn
  dsimp only at hn
  unfold Cursor.nullList at h
  by_cases h0 : c.prpOffs = 0
  · rw [if_pos (by omega)] at hn
    cases hn
    unfold NullList firstPage
    rw [if_neg (by dsimp only; omega), if_pos (by dsimp only; omega), if_pos h0]
    omega
  by_cases h1 : c.prpOffs = 1
  · rw [if_neg (by omega), if_pos (by omega)] at hn
    by_cases hr : remaining > pageSize
    · rw [if_pos hr] at hn
      cases hn
      unfold NullList
      rw [if_neg (by dsimp only; omega), if_neg (by dsimp only; omega), if_neg h0, if_pos h1]
      dsimp only
      omega
    · rw [if_neg hr] at hn
      cases hn
      have hfresh := hc (by omega)
      unfold NullList
      rw [if_neg (by dsimp only; omega), if_neg (by dsimp only; omega), if_neg h0, if_pos h1]
      dsimp only
      omega
  · rw [if_neg (by omega), if_neg (by omega)] at hn
    cases hn
    unfold NullList
    rw [if_neg (by dsimp only; omega), if_neg (by dsimp only; omega), if_neg h0, if_neg h1]
    dsimp only
    omega

/-- The loop comes to a NULL `paddr_list` exactly then, whatever is in the host memory. -/
theorem readsNull_iff (hc : c.Fresh) (hf : remaining ≤ fuel) :
    readsNull M prp1 prp2 host fuel c remaining = true ↔ NullList prp1 prp2 c remaining := by
  have hzero (c : Cursor) : ¬ NullList prp1 prp2 c 0 := by
    unfold NullList
    split
    · omega
    · split <;> omega
  induction fuel generalizing c remaining with
  | zero =>
    obtain rfl : remaining = 0 := by omega
    simp [readsNull, hzero]
  | succ fuel ih =>
    unfold readsNull
    by_cases h0 : remaining = 0
    · subst h0
      simp [hzero]
    rw [if_neg h0]
    by_cases hnull : c.nullList
    · rw [if_pos hnull]
      exact ⟨fun _ => .of_cursor hnull h0, fun _ => rfl⟩
    · rw [if_neg hnull]
      rcases hn : nextPrp M prp1 prp2 host remaining c with ⟨paddr, c'⟩
      have hpos := ioSize_pos (Nat.pos_of_ne_zero h0) paddr
      exact (ih (hc.next hn) (by omega)).trans (nullList_next hc hn hnull)

/-- `l` bytes have no need of the second PRP, or use it as `b` bytes do: as a page or as a list. -/
def SameForm (prp1 l b : Nat) : Prop :=
  l ≤ firstPage prp1 ∨ (l - firstPage prp1 > pageSize ↔ b - firstPage prp1 > pageSize)

theorem follows_of_sameForm (hlb : l ≤ b) (h : SameForm prp1 l b) :
    Follows M prp1 prp2 host {} l b := by
  refine Follows.step hlb rfl rfl rfl fun hl => ?_
  have hform : l - firstPage prp1 > pageSize ↔ b - firstPage prp1 > pageSize :=
    h.resolve_left (by unfold firstPage; omega)
  unfold firstPage at hform
  rcases hn : nextPrp M prp1 prp2 host (l - (pageSize - prp1 % pageSize)) { prpOffs := 0 + 1 }
    with ⟨paddr, c'⟩
  have hc' : c'.prpOffs = 2 := by
    rw [show c' = (nextPrp M prp1 prp2 host (l - (pageSize - prp1 % pageSize)) { prpOffs := 0 + 1 }).2
      by rw [hn]]
    unfold nextPrp
    simp only [Nat.zero_add, Nat.reduceAdd, Nat.reduceEqDiff, ↓reduceIte]
    split <;> rfl
  refine Follows.step (by omega) hn ?_ ?_ fun _ => follows_list (by omega) (by omega)
  · rw [← hn]
    simp [nextPrp, hform]
  · simp [entryAddr, hform]

/-- The first part of a buffer. -/
theorem IsBuffer.shorter {fuel' : Nat} (h : IsBuffer M prp1 prp2 host fuel' {} b) (hlb : l ≤ b)
    (hform : SameForm prp1 l b) (hf : l ≤ fuel) (hf' : b ≤ fuel') :
    IsBuffer M prp1 prp2 host fuel {} l := by
  obtain ⟨hdata, hlist⟩ := follows_of_sameForm hlb hform fuel fuel' hf hf'
  constructor
  · intro k hk k' hk' heq
    rw [hdata k hk, hdata k' hk'] at heq
    exact h.inj k (by omega) k' (by omega) heq
  · intro a ha i hi k hk
    rw [hdata k hk]
    exact h.apart a (hlist a ha) i hi k (by omega)

end ToHost

end Prp

/-- `__cmd_io_offset`. -/
def cmdIoOffset (cmd : RwCommand) : Nat := lbaToByte cmd.slba

/-- `__cmd_io_size`. -/
def cmdIoSize (cmd : RwCommand) : Nat := cmd.nrLbas <<< lbaBits

/-- What the opcode makes `__do_perform_io` do. -/
def ioDir : Opcode → Prp.Dir
  | .write | .zoneAppend => .toStorage
  | .read => .toHost
  | _ => .nowhere

/-- `__do_perform_io` on a submission-queue entry, where it does not come to a NULL list. It reads no
status. -/
def doPerformIo (pfnValid : Nat → Bool) (cmd : RwCommand) (ms : Prp.Memories) : Prp.Memories :=
  Prp.transfer (.remap pfnValid) cmd.prp1 cmd.prp2 (ioDir cmd.opcode) (cmdIoSize cmd) {}
    (cmdIoSize cmd) (cmdIoOffset cmd) ms

/-- The address of byte `k` of the data of a command. -/
def cmdDataAddr (pfnValid : Nat → Bool) (cmd : RwCommand) (host : Mem) (k : Nat) : Nat :=
  Prp.dataAddr (.remap pfnValid) cmd.prp1 cmd.prp2 host (cmdIoSize cmd) {} (cmdIoSize cmd) k

theorem cmdIoSize_le (cmd : RwCommand) : cmdIoSize cmd ≤ 2 ^ 25 := by
  have := nrLbas_le cmd
  unfold cmdIoSize lbaBits
  rw [Nat.shiftLeft_eq]
  omega

/-- A write or zone append copies its data to its address. -/
theorem doPerformIo_write {pfnValid : Nat → Bool} {cmd : RwCommand}
    (hop : cmd.opcode = .write ∨ cmd.opcode = .zoneAppend) (ms : Prp.Memories) :
    doPerformIo pfnValid cmd ms = { ms with
      storage := copyIn ms.storage (cmdIoOffset cmd)
        (fun k => ms.host (cmdDataAddr pfnValid cmd ms.host k)) (cmdIoSize cmd) } := by
  have hle := cmdIoSize_le cmd
  have hdir : ioDir cmd.opcode = .toStorage := by rcases hop with h | h <;> rw [h] <;> rfl
  unfold doPerformIo
  rw [hdir, Prp.transfer_toStorage _ _ _ _ _ _ (Nat.le_refl _) (by omega)]
  rfl

end Nvmev
