import NvmeVirt.Ssd.Params

/-!
# The products of `ssd_init_params`

`ssdInitParamsC` is `ssd_init_params` with the types of the source: a product of two `int`s is one of
32 bits, an operand of a product of `unsigned long`s is converted to 64 bits first, and the number of
one-shot pages of a block is stored into an `int`. `ssdInitParams` takes the same products without types;
where these fit (`ProductsFit`), the two functions are the same (`ssdInitParamsC_eq`).
-/

namespace Nvmev

open CInt Outcome

/-- The product of two `int`s. -/
def mul32 (a b : Nat) : Nat := u32 (a * b)

/-- The product of two `unsigned long`s. -/
def mul64 (a b : Nat) : Nat := u64 (a * b)

/-- `DIV_ROUND_UP` of an `uint64_t`, which stops where the divisor is 0. -/
def divRoundUp64 (n d : Nat) : Except Bug Nat := do
  ensure (d ≠ 0) (.divideByZero .ssdInitParams)
  pure (u64 (n + (d - 1)) / d)

/-- The blocks of a plane and the bytes of a block: one of them is given. -/
def blocksC (cfg : SsdConfig) (capacity nchs : Nat) : Except Bug (Nat × Nat) :=
  if 0 < cfg.blksPerPln then do
    let blks := mul32 (mul32 (mul32 cfg.blksPerPln cfg.plnsPerLun) cfg.lunsPerNandCh) nchs
    let blkSize ← divRoundUp64 capacity (ulong blks)
    pure (cfg.blksPerPln, blkSize)
  else do
    let bytes := mul64 (mul64 (mul64 cfg.blkSize cfg.plnsPerLun) cfg.lunsPerNandCh) nchs
    let blksPerPl ← divRoundUp64 capacity bytes
    pure (u32 blksPerPl, cfg.blkSize)

/-- `ssd_init_params(spp, capacity, nparts)` in C's integer types. The constants of a configuration are
positive `int`s, which keep their values where they are converted. -/
def ssdInitParamsC (cfg : SsdConfig) (capacity nparts : Nat) : Except Bug SsdParams := do
  let secsz := lbaSize
  let secsPerPg := 4096 / lbaSize
  let pgsz := mul32 secsz secsPerPg
  ensure (nparts ≠ 0) (.divideByZero .ssdInitParams)
  nvmevAssert (cfg.nandChannels % nparts = 0) .ssdInitParams
  let nchs := cfg.nandChannels / nparts
  let capacity := capacity / nparts
  nvmevAssert (0 < cfg.blksPerPln ∨ 0 < cfg.blkSize) .ssdInitParams
  let (blksPerPl, blkSize) ← blocksC cfg capacity nchs
  nvmevAssert (cfg.oneshotPageSize % pgsz = 0 ∧ cfg.flashPageSize % pgsz = 0) .ssdInitParams
  nvmevAssert (cfg.oneshotPageSize % cfg.flashPageSize = 0) .ssdInitParams
  let pgsPerOneshotpg := cfg.oneshotPageSize / pgsz
  let oneshotpgsPerBlk ← divRoundUp64 blkSize cfg.oneshotPageSize
  let oneshotpgsPerBlk := u32 oneshotpgsPerBlk
  let pgsPerFlashpg := cfg.flashPageSize / pgsz
  let flashpgsPerBlk := mul32 (cfg.oneshotPageSize / cfg.flashPageSize) oneshotpgsPerBlk
  let pgsPerBlk := mul32 pgsPerOneshotpg oneshotpgsPerBlk
  let pgsPerPl := ulong (mul32 pgsPerBlk blksPerPl)
  let pgsPerLun := mul64 pgsPerPl cfg.plnsPerLun
  let pgsPerCh := mul64 pgsPerLun cfg.lunsPerNandCh
  let blksPerLun := ulong (mul32 blksPerPl cfg.plnsPerLun)
  let ttLuns := ulong (mul32 cfg.lunsPerNandCh nchs)
  pure {
    secsz, secsPerPg, pgsz, pgsPerFlashpg, flashpgsPerBlk, pgsPerOneshotpg, oneshotpgsPerBlk,
    pgsPerBlk, blksPerPl, plsPerLun := cfg.plnsPerLun, lunsPerCh := cfg.lunsPerNandCh, nchs,
    cellMode := cfg.cellMode, writeUnitSize := cfg.writeUnitSize,
    writeEarlyCompletion := cfg.writeEarlyCompletion, fw4kbRdLat := cfg.fw4kbReadLatency,
    fwRdLat := cfg.fwReadLatency, pgsPerPl, pgsPerLun, pgsPerCh, ttPgs := mul64 pgsPerCh nchs,
    blksPerLun, blksPerLine := ttLuns, pgsPerLine := mul64 ttLuns (ulong pgsPerBlk),
    ttLines := blksPerLun, ttLuns, writeBufferSize := cfg.globalWbSize }

/-- The values of `ssd_init_params` fit their types, for a configuration that gives the number of blocks.
`sp` is what the function computes without types. -/
structure ProductsFit (cfg : SsdConfig) (capacity nparts : Nat) (sp : SsdParams) : Prop where
  parts : nparts ≠ 0
  blksPerPln : 0 < cfg.blksPerPln
  plns : 0 < cfg.plnsPerLun
  luns : 0 < cfg.lunsPerNandCh
  nchs : 0 < sp.nchs
  blks : cfg.blksPerPln * cfg.plnsPerLun * cfg.lunsPerNandCh * sp.nchs < 2 ^ 31
  oneshotPos : 0 < cfg.oneshotPageSize
  oneshot : cfg.oneshotPageSize < 2 ^ 31
  capacity : capacity ≤ 2 ^ 63
  oneshotpgs : sp.oneshotpgsPerBlk < 2 ^ 31
  flashpgs : sp.flashpgsPerBlk < 2 ^ 31
  pgs : sp.pgsPerBlk < 2 ^ 31
  pgsPerPl : sp.pgsPerPl < 2 ^ 31
  ttPgs : sp.ttPgs < 2 ^ 64
  pgsPerLine : sp.pgsPerLine < 2 ^ 64

theorem divRoundUp64_of_lt {n d : Nat} (hd : 0 < d) (h : n + d < 2 ^ 64) :
    divRoundUp64 n d = .ok (divRoundUp n d) := by
  unfold divRoundUp64 divRoundUp
  rw [ensure_of _ (Nat.ne_of_gt hd), ok_bind, u64_of_lt (by omega), Nat.add_sub_assoc hd]
  rfl

theorem mul32_of_lt {a b : Nat} (h : a * b < 2 ^ 31) : mul32 a b = a * b :=
  u32_of_lt (Nat.lt_trans h (by decide))

theorem mul64_of_lt {a b : Nat} (h : a * b < 2 ^ 64) : mul64 a b = a * b := u64_of_lt h

theorem divRoundUp_le (n : Nat) {d : Nat} (hd : 0 < d) : divRoundUp n d ≤ n := by
  unfold divRoundUp
  rw [Nat.div_le_iff_le_mul_add_pred hd]
  have := Nat.le_mul_of_pos_left n hd
  omega

/-- The number of blocks is given. -/
theorem blocksC_of_blksPerPln {cfg : SsdConfig} {capacity nchs : Nat} (h : 0 < cfg.blksPerPln)
    (hplns : 0 < cfg.plnsPerLun) (hluns : 0 < cfg.lunsPerNandCh) (hnchs : 0 < nchs)
    (hblks : cfg.blksPerPln * cfg.plnsPerLun * cfg.lunsPerNandCh * nchs < 2 ^ 31)
    (hcap : capacity ≤ 2 ^ 63) :
    blocksC cfg capacity nchs = .ok (cfg.blksPerPln,
      divRoundUp capacity (cfg.blksPerPln * cfg.plnsPerLun * cfg.lunsPerNandCh * nchs)) := by
  have hlun : cfg.blksPerPln * cfg.plnsPerLun * cfg.lunsPerNandCh < 2 ^ 31 :=
    Nat.lt_of_le_of_lt (Nat.le_mul_of_pos_right _ hnchs) hblks
  have hpln : cfg.blksPerPln * cfg.plnsPerLun < 2 ^ 31 :=
    Nat.lt_of_le_of_lt (Nat.le_mul_of_pos_right _ hluns) hlun
  have hpos : 0 < cfg.blksPerPln * cfg.plnsPerLun * cfg.lunsPerNandCh * nchs :=
    Nat.mul_pos (Nat.mul_pos (Nat.mul_pos h hplns) hluns) hnchs
  unfold blocksC
  rw [if_pos h]
  dsimp only
  rw [mul32_of_lt hpln, mul32_of_lt hlun, mul32_of_lt hblks, ulong_of_lt hblks,
    divRoundUp64_of_lt hpos (by omega)]
  rfl

/-- Where the values fit their types, the types make no difference. -/
theorem ssdInitParamsC_eq {cfg : SsdConfig} {capacity nparts : Nat} {sp : SsdParams}
    (h : ssdInitParams cfg capacity nparts = .ok sp) (hfit : ProductsFit cfg capacity nparts sp) :
    ssdInitParamsC cfg capacity nparts = .ok sp := by
  obtain ⟨hparts, hblksPerPln, hplns, hluns, hnchs, hblks, hpos, honeshot, hcap, hoops, hfps, hpgs, hpl, htt,
    hline⟩ := hfit
  unfold ssdInitParams at h
  simp only [bind_ok] at h
  obtain ⟨_, hch, _, hb, _, hpg, _, hflash, h⟩ := h
  cases h
  simp only [if_pos hblksPerPln] at *
  unfold ssdInitParamsC
  dsimp only
  rw [ensure_of _ hparts, ok_bind, hch, ok_bind, hb, ok_bind]
  have hcap' : capacity / nparts ≤ 2 ^ 63 := Nat.le_trans (Nat.div_le_self _ _) hcap
  generalize cfg.nandChannels / nparts = nchs at *
  generalize capacity / nparts = bytes at *
  have hblocks := blocksC_of_blksPerPln hblksPerPln hplns hluns hnchs hblks hcap'
  have hsize : divRoundUp bytes (cfg.blksPerPln * cfg.plnsPerLun * cfg.lunsPerNandCh * nchs) ≤ bytes :=
    divRoundUp_le _ (Nat.mul_pos (Nat.mul_pos (Nat.mul_pos hblksPerPln hplns) hluns) hnchs)
  generalize divRoundUp bytes (cfg.blksPerPln * cfg.plnsPerLun * cfg.lunsPerNandCh * nchs) = blkSize at *
  have honeshots := divRoundUp64_of_lt (n := blkSize) hpos (by omega)
  generalize divRoundUp blkSize cfg.oneshotPageSize = oneshotpgs at *
  have hpgsz : mul32 lbaSize (4096 / lbaSize) = lbaSize * (4096 / lbaSize) := by decide
  have hluns' : cfg.lunsPerNandCh * nchs < 2 ^ 31 := by
    have := Nat.mul_le_mul_right nchs
      (Nat.le_mul_of_pos_left cfg.lunsPerNandCh (Nat.mul_pos hblksPerPln hplns))
    omega
  have hblksPerLun : cfg.blksPerPln * cfg.plnsPerLun < 2 ^ 31 := by
    have := Nat.le_mul_of_pos_right (cfg.blksPerPln * cfg.plnsPerLun) (Nat.mul_pos hluns hnchs)
    rw [← Nat.mul_assoc] at this
    omega
  have hcapch := Nat.lt_of_le_of_lt (Nat.le_mul_of_pos_right _ hnchs) htt
  have hlunpgs := Nat.lt_of_le_of_lt (Nat.le_mul_of_pos_right _ hluns) hcapch
  rw [hblocks, ok_bind]
  dsimp only
  rw [hpgsz, hpg, ok_bind, hflash, ok_bind, honeshots, ok_bind, u32_of_lt (n := oneshotpgs) (by omega),
    mul32_of_lt hfps, mul32_of_lt hpgs, mul32_of_lt hpl, mul32_of_lt hblksPerLun, mul32_of_lt hluns',
    ulong_of_lt hpl, ulong_of_lt hblksPerLun, ulong_of_lt hluns', ulong_of_lt hpgs, mul64_of_lt hlunpgs,
    mul64_of_lt hcapch, mul64_of_lt htt, mul64_of_lt hline]
  rfl

end Nvmev
