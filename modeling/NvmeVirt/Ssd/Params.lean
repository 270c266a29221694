import NvmeVirt.Nvme

/-!
# The geometry of the emulated SSD

`struct ssdparams` and `ssd_init_params` (`ssd.h`, `ssd.c`). The constants of `ssd_config.h` are
the fields of `SsdConfig`; a build of the module fixes them. The `int` and `unsigned long`
products are taken without wrap-around: they are the values of the C expressions as long as
these fit their types.
-/

namespace Nvmev

open CInt

/-- The constants of `ssd_config.h` that `ssd_init_params` reads. -/
structure SsdConfig where
  nandChannels : Nat
  lunsPerNandCh : Nat
  plnsPerLun : Nat
  flashPageSize : Nat
  oneshotPageSize : Nat
  /-- `BLKS_PER_PLN`: 0 when the block size is given instead. -/
  blksPerPln : Nat
  blkSize : Nat
  cellMode : Nat
  writeUnitSize : Nat
  fw4kbReadLatency : Nat
  fwReadLatency : Nat
  globalWbSize : Nat
  writeEarlyCompletion : Bool
  deriving DecidableEq, Repr

/-- `struct ssdparams`, without the NAND latencies and bandwidths, which only the timing model
reads, and the derived counts of sectors, planes and blocks, which nothing reads. -/
structure SsdParams where
  secsz : Nat
  secsPerPg : Nat
  pgsz : Nat
  pgsPerFlashpg : Nat
  flashpgsPerBlk : Nat
  pgsPerOneshotpg : Nat
  oneshotpgsPerBlk : Nat
  pgsPerBlk : Nat
  blksPerPl : Nat
  plsPerLun : Nat
  lunsPerCh : Nat
  nchs : Nat
  cellMode : Nat
  writeUnitSize : Nat
  writeEarlyCompletion : Bool
  fw4kbRdLat : Nat
  fwRdLat : Nat
  pgsPerPl : Nat
  pgsPerLun : Nat
  pgsPerCh : Nat
  ttPgs : Nat
  blksPerLun : Nat
  pgsPerLine : Nat
  blksPerLine : Nat
  ttLines : Nat
  ttLuns : Nat
  writeBufferSize : Nat
  deriving DecidableEq, Repr

/-- `ssd_init_params(spp, capacity, nparts)`. -/
def ssdInitParams (cfg : SsdConfig) (capacity nparts : Nat) : Except Bug SsdParams := do
  let secsz := lbaSize
  let secsPerPg := 4096 / lbaSize
  let pgsz := secsz * secsPerPg
  nvmevAssert (cfg.nandChannels % nparts = 0) .ssdInitParams
  let nchs := cfg.nandChannels / nparts
  let capacity := capacity / nparts
  nvmevAssert (0 < cfg.blksPerPln ∨ 0 < cfg.blkSize) .ssdInitParams
  let blksPerPl :=
    if 0 < cfg.blksPerPln then cfg.blksPerPln
    else divRoundUp capacity (cfg.blkSize * cfg.plnsPerLun * cfg.lunsPerNandCh * nchs)
  let blkSize :=
    if 0 < cfg.blksPerPln then
      divRoundUp capacity (cfg.blksPerPln * cfg.plnsPerLun * cfg.lunsPerNandCh * nchs)
    else cfg.blkSize
  nvmevAssert (cfg.oneshotPageSize % pgsz = 0 ∧ cfg.flashPageSize % pgsz = 0) .ssdInitParams
  nvmevAssert (cfg.oneshotPageSize % cfg.flashPageSize = 0) .ssdInitParams
  let pgsPerOneshotpg := cfg.oneshotPageSize / pgsz
  let oneshotpgsPerBlk := divRoundUp blkSize cfg.oneshotPageSize
  let pgsPerFlashpg := cfg.flashPageSize / pgsz
  let flashpgsPerBlk := (cfg.oneshotPageSize / cfg.flashPageSize) * oneshotpgsPerBlk
  let pgsPerBlk := pgsPerOneshotpg * oneshotpgsPerBlk
  let pgsPerPl := pgsPerBlk * blksPerPl
  let pgsPerLun := pgsPerPl * cfg.plnsPerLun
  let pgsPerCh := pgsPerLun * cfg.lunsPerNandCh
  let blksPerLun := blksPerPl * cfg.plnsPerLun
  let ttLuns := cfg.lunsPerNandCh * nchs
  pure {
    secsz, secsPerPg, pgsz, pgsPerFlashpg, flashpgsPerBlk, pgsPerOneshotpg, oneshotpgsPerBlk,
    pgsPerBlk, blksPerPl, plsPerLun := cfg.plnsPerLun, lunsPerCh := cfg.lunsPerNandCh, nchs,
    cellMode := cfg.cellMode, writeUnitSize := cfg.writeUnitSize,
    writeEarlyCompletion := cfg.writeEarlyCompletion, fw4kbRdLat := cfg.fw4kbReadLatency,
    fwRdLat := cfg.fwReadLatency, pgsPerPl, pgsPerLun, pgsPerCh, ttPgs := pgsPerCh * nchs,
    blksPerLun, blksPerLine := ttLuns, pgsPerLine := ttLuns * pgsPerBlk, ttLines := blksPerLun,
    ttLuns, writeBufferSize := cfg.globalWbSize }

/-- The sector and page sizes, which do not depend on the configuration. -/
structure SsdParams.Sectors (sp : SsdParams) : Prop where
  secsz : sp.secsz = 512
  secsPerPg : sp.secsPerPg = 8
  pgsz : sp.pgsz = 4096

theorem ssdInitParams_sectors {cfg : SsdConfig} {capacity nparts : Nat} {sp : SsdParams}
    (h : ssdInitParams cfg capacity nparts = .ok sp) : sp.Sectors := by
  unfold ssdInitParams at h
  simp only [Outcome.bind_ok] at h
  obtain ⟨_, _, _, _, _, _, _, _, h⟩ := h
  cases h
  exact ⟨rfl, rfl, rfl⟩

end Nvmev
