import Mathlib.Logic.Function.Basic
import NvmeVirt.Ssd.Nand

/-!
# State of the zoned FTL

`struct znsparams`, `struct zns_ftl`, the zone descriptors and the address helpers (`zns_ftl.h`,
`nvme_zns.h`), and the initialisation of `zns_ftl.c`. The memory behind `storage_base_addr` is
the field `storage`, since a zone reset clears a part of it.

The address helpers have the widths of the source: a zone id is 32 bits, and `zone_to_slba`
multiplies two 32-bit values before it widens the product.
-/

namespace Nvmev

open CInt Function

/-- The constants of `ssd_config.h` for a zoned device. -/
structure ZnsConfig where
  zoneSize : Nat
  diesPerZone : Nat
  zoneWbSize : Nat
  maxZrwaZones : Nat := 0
  zrwafgSize : Nat := 0
  zrwaSize : Nat := 0
  zrwaBufferSize : Nat := 0
  deriving DecidableEq, Repr

/-- `struct znsparams`. -/
structure ZnsParams where
  nrZones : Nat
  nrActiveZones : Nat
  nrOpenZones : Nat
  diesPerZone : Nat
  zoneSize : Nat
  zoneWbSize : Nat
  nrZrwaZones : Nat
  zrwafgSize : Nat
  zrwaSize : Nat
  zrwaBufferSize : Nat
  lbasPerZrwafg : Nat
  lbasPerZrwa : Nat
  deriving DecidableEq, Repr

/-- `enum zone_state`. -/
inductive ZoneState where
  | empty | openedImpl | openedExpl | closed | readOnly | full | offline
  deriving DecidableEq, Repr

/-- `struct zone_descriptor`, without the attributes that no handler sets. -/
structure ZoneDescriptor where
  state : ZoneState
  zrwav : Bool
  zoneCapacity : Nat
  zslba : Nat
  wp : Nat
  deriving DecidableEq, Repr

/-- `enum zone_resource_type`. -/
inductive ZoneResource where
  | activeZone | openZone | zrwaZone
  deriving DecidableEq, Repr

/-- `struct zone_resource_info`. -/
structure ZoneResourceInfo where
  acquiredCnt : Nat
  totalCnt : Nat
  deriving DecidableEq, Repr

/-- The part of `struct ssd` that the zoned FTL uses. -/
structure Ssd (τ : Type) where
  sp : SsdParams
  writeBuffer : Buffer
  perf : τ

/-- `struct zns_ftl`. The buffer arrays are allocated only when their size is not 0. -/
structure ZnsFtl (τ : Type) where
  ssd : Ssd τ
  zp : ZnsParams
  resInfos : ZoneResource → ZoneResourceInfo
  zoneDescs : Nat → ZoneDescriptor
  zoneWriteBuffer : Nat → Buffer
  zrwaBuffer : Nat → Buffer
  storage : Nat → UInt8

section Address

variable {τ : Type} (z : ZnsFtl τ)

/-- Logical blocks in a zone: `zone_size / secsz`. -/
def zoneLbas : Nat := z.zp.zoneSize / z.ssd.sp.secsz

/-- `lpn_to_zone`. -/
def lpnToZone (lpn : Nat) : Nat := u32 (lpn / (z.zp.zoneSize / z.ssd.sp.pgsz))

/-- `zone_to_slpn`. -/
def zoneToSlpn (zid : Nat) : Nat := u32 (u32 zid * (z.zp.zoneSize / z.ssd.sp.pgsz))

/-- `lba_to_zone`. -/
def lbaToZone (lba : Nat) : Nat := u32 (lba / zoneLbas z)

/-- `zone_to_slba`. -/
def zoneToSlba (zid : Nat) : Nat := u32 (u32 zid * zoneLbas z)

/-- `zone_to_elba`. -/
def zoneToElba (zid : Nat) : Nat := sub64 (zoneToSlba z (u32 (zid + 1))) 1

/-- `zone_to_elpn`. -/
def zoneToElpn (zid : Nat) : Nat := zoneToElba z zid / z.ssd.sp.secsPerPg

/-- `lba_to_lpn`. -/
def lbaToLpn (lba : Nat) : Nat := lba / z.ssd.sp.secsPerPg

/-- `die_to_channel`. -/
def dieToChannel (die : Nat) : Nat := die % z.ssd.sp.nchs

/-- `die_to_lun`. -/
def dieToLun (die : Nat) : Nat := die / z.ssd.sp.nchs

end Address

section Resources

variable {τ : Type} (z : ZnsFtl τ)

/-- `is_zone_resource_avail`. -/
def isZoneResourceAvail (type : ZoneResource) : Bool :=
  (z.resInfos type).acquiredCnt < (z.resInfos type).totalCnt

/-- `is_zone_resource_full`. -/
def isZoneResourceFull (type : ZoneResource) : Bool :=
  (z.resInfos type).acquiredCnt == (z.resInfos type).totalCnt

/-- `z` with `acquired_cnt` of `type` set to `cnt`. -/
def ZnsFtl.setAcquired (type : ZoneResource) (cnt : Nat) : ZnsFtl τ :=
  { z with resInfos := update z.resInfos type { z.resInfos type with acquiredCnt := cnt } }

/-- `acquire_zone_resource`. -/
def acquireZoneResource (type : ZoneResource) : Bool × ZnsFtl τ :=
  if isZoneResourceAvail z type then
    (true, z.setAcquired type (u32 ((z.resInfos type).acquiredCnt + 1)))
  else (false, z)

/-- `release_zone_resource`: its `ASSERT` is empty, so a release at 0 wraps. -/
def releaseZoneResource (type : ZoneResource) : ZnsFtl τ :=
  z.setAcquired type (u32 ((z.resInfos type).acquiredCnt + (2 ^ 32 - 1)))

/-- `z` with the descriptor `d` for zone `zid`. -/
def ZnsFtl.setDesc (zid : Nat) (d : ZoneDescriptor) : ZnsFtl τ :=
  { z with zoneDescs := update z.zoneDescs zid d }

/-- `change_zone_state`. -/
def changeZoneState (zid : Nat) (state : ZoneState) : ZnsFtl τ :=
  z.setDesc zid { z.zoneDescs zid with state }

/-- The buffer behind a pointer. -/
def ZnsFtl.buffer : BufferRef → Buffer
  | .writeBuffer => z.ssd.writeBuffer
  | .zoneWriteBuffer zid => z.zoneWriteBuffer zid
  | .zrwaBuffer zid => z.zrwaBuffer zid

/-- `z` with the buffer behind a pointer set to `b`. -/
def ZnsFtl.setBuffer (b : Buffer) : BufferRef → ZnsFtl τ
  | .writeBuffer => { z with ssd := { z.ssd with writeBuffer := b } }
  | .zoneWriteBuffer zid => { z with zoneWriteBuffer := update z.zoneWriteBuffer zid b }
  | .zrwaBuffer zid => { z with zrwaBuffer := update z.zrwaBuffer zid b }

end Resources

/-! ## Initialisation -/

/-- The configuration `ZNS_PROTOTYPE`. -/
def SsdConfig.znsPrototype : SsdConfig :=
  { nandChannels := 8, lunsPerNandCh := 16, plnsPerLun := 1, flashPageSize := 64 * 1024
    oneshotPageSize := 128 * 1024, blksPerPln := 0, blkSize := 32 * 1024 * 1024, cellMode := 2
    writeUnitSize := 128 * 1024, fw4kbReadLatency := 32150, fwReadLatency := 32150
    globalWbSize := 32 * 1024 * 1024, writeEarlyCompletion := false }

/-- The zones of `ZNS_PROTOTYPE`: 32 MiB each, and no random write area. -/
def ZnsConfig.znsPrototype : ZnsConfig :=
  { zoneSize := 32 * 1024 * 1024, diesPerZone := 1, zoneWbSize := 0 }

/-- `zns_init_params`. The fields are 32 bits wide. -/
def znsInitParams (cfg : ZnsConfig) (sp : SsdParams) (capacity : Nat) : Except Bug ZnsParams := do
  let zoneSize := u32 cfg.zoneSize
  Outcome.ensure (zoneSize ≠ 0) (.divideByZero .znsInitParams)
  nvmevAssert (capacity % zoneSize = 0) .znsInitParams
  nvmevAssert (zoneSize % sp.pgsz = 0) .znsInitParams
  pure {
    zoneSize
    nrZones := u32 (capacity / cfg.zoneSize)
    nrActiveZones := u32 (capacity / cfg.zoneSize)
    nrOpenZones := u32 (capacity / cfg.zoneSize)
    diesPerZone := u32 cfg.diesPerZone
    zoneWbSize := u32 cfg.zoneWbSize
    nrZrwaZones := u32 cfg.maxZrwaZones
    zrwafgSize := u32 cfg.zrwafgSize
    zrwaSize := u32 cfg.zrwaSize
    zrwaBufferSize := u32 cfg.zrwaBufferSize
    lbasPerZrwa := u32 (cfg.zrwaSize / sp.secsz)
    lbasPerZrwafg := u32 (cfg.zrwafgSize / sp.secsz) }

/-- The zone descriptor that `__init_descriptor` writes for zone `i`: `zslba` is the 64-bit sum of
the sizes of the zones before it. -/
def initDescriptor (zp : ZnsParams) (i : Nat) : ZoneDescriptor :=
  { state := .empty, zrwav := false, zoneCapacity := byteToLba zp.zoneSize
    zslba := u64 (i * byteToLba zp.zoneSize), wp := u64 (i * byteToLba zp.zoneSize) }

/-- `__init_resource`: every resource has one unit a zone. -/
def initResource (zp : ZnsParams) (_ : ZoneResource) : ZoneResourceInfo :=
  { totalCnt := zp.nrZones, acquiredCnt := 0 }

/-- `zns_init_ftl` on the storage `storage`. -/
def znsInitFtl {τ : Type} (sp : SsdParams) (zp : ZnsParams) (perf : τ) (storage : Nat → UInt8) :
    ZnsFtl τ :=
  { ssd := { sp, writeBuffer := bufferInit sp.writeBufferSize, perf }
    zp
    resInfos := initResource zp
    zoneDescs := initDescriptor zp
    zoneWriteBuffer := fun _ => bufferInit zp.zoneWbSize
    zrwaBuffer := fun _ => bufferInit zp.zrwaBufferSize
    storage }

/-- The parameters of a `ZNS_PROTOTYPE` of four zones. -/
def SsdParams.znsPrototype : SsdParams :=
  { secsz := 512, secsPerPg := 8, pgsz := 4096, pgsPerFlashpg := 16, flashpgsPerBlk := 512
    pgsPerOneshotpg := 32, oneshotpgsPerBlk := 256, pgsPerBlk := 8192, blksPerPl := 1
    plsPerLun := 1, lunsPerCh := 16, nchs := 8, cellMode := 2, writeUnitSize := 131072
    writeEarlyCompletion := false, fw4kbRdLat := 32150, fwRdLat := 32150, pgsPerPl := 8192
    pgsPerLun := 8192, pgsPerCh := 131072, ttPgs := 1048576, blksPerLun := 1
    pgsPerLine := 1048576, blksPerLine := 128, ttLines := 1, ttLuns := 128
    writeBufferSize := 33554432 }

/-- The zones of a `ZNS_PROTOTYPE` of four zones. -/
def ZnsParams.znsPrototype : ZnsParams :=
  { nrZones := 4, nrActiveZones := 4, nrOpenZones := 4, diesPerZone := 1, zoneSize := 33554432
    zoneWbSize := 0, nrZrwaZones := 0, zrwafgSize := 0, zrwaSize := 0, zrwaBufferSize := 0
    lbasPerZrwafg := 0, lbasPerZrwa := 0 }

theorem ssdInitParams_znsPrototype :
    ssdInitParams .znsPrototype (2 ^ 27) 1 = .ok .znsPrototype := by decide

theorem znsInitParams_znsPrototype :
    znsInitParams .znsPrototype .znsPrototype (2 ^ 27) = .ok .znsPrototype := by decide

end Nvmev
