import NvmeVirt.Ssd.Params

/-!
# NAND commands, the write buffer and the timing backend

`struct ppa`, `struct nand_cmd` and `struct buffer` (`ssd.h`, `ssd.c`), and the requests that the
handlers of the FTLs take.

The FTLs issue NAND commands (`ssd_advance_nand`) and PCIe transfers, and use only the completion
times they return. `PerfModel` is this interface: a state (die clocks, channel credits, the
clock readings still to come) and the four operations on it. The FTLs are stated for every
`PerfModel`.
-/

namespace Nvmev

open CInt

/-- `struct ppa`: the bit-fields of a physical page address. -/
structure Ppa where
  pg : Nat
  blk : Nat
  pl : Nat
  lun : Nat
  ch : Nat
  rsv : Nat
  deriving DecidableEq, Repr

/-- A `struct ppa` whose fields are assigned: each is truncated to its width. -/
def Ppa.ofFields (pg blk pl lun ch : Nat) : Ppa :=
  { pg := pg % 2 ^ 16, blk := blk % 2 ^ 16, pl := pl % 2 ^ 8, lun := lun % 2 ^ 8,
    ch := ch % 2 ^ 8, rsv := 0 }

/-- `UNMAPPED_PPA`. -/
def unmappedPpa : Ppa :=
  { pg := 2 ^ 16 - 1, blk := 2 ^ 16 - 1, pl := 2 ^ 8 - 1, lun := 2 ^ 8 - 1, ch := 2 ^ 8 - 1
    rsv := 2 ^ 8 - 1 }

/-- `USER_IO` and `GC_IO`. -/
inductive IoType where
  | userIo | gcIo
  deriving DecidableEq, Repr

/-- `NAND_READ`, `NAND_WRITE`, `NAND_ERASE`, `NAND_NOP`. -/
inductive NandOp where
  | read | write | erase | nop
  deriving DecidableEq, Repr

/-- `struct nand_cmd`. -/
structure NandCmd where
  type : IoType
  cmd : NandOp
  xferSize : Nat := 0
  stime : Nat
  interleavePciDma : Bool := false
  ppa : Ppa
  deriving DecidableEq, Repr

/-- The timing operations the FTLs call: `ssd_advance_nand`, `ssd_advance_pcie`,
`ssd_advance_write_buffer`, `ssd_next_idle_time` and `local_clock`. Each returns a time and the
new state. -/
structure PerfModel (τ : Type) where
  advanceNand : τ → NandCmd → Nat × τ
  advancePcie : τ → (requestTime length : Nat) → Nat × τ
  advanceWriteBuffer : τ → (requestTime length : Nat) → Nat × τ
  nextIdleTime : τ → Nat × τ
  localClock : τ → Nat × τ

/-- A backend in which nothing takes time. -/
def PerfModel.instant : PerfModel Unit where
  advanceNand _ cmd := (cmd.stime, ())
  advancePcie _ requestTime _ := (requestTime, ())
  advanceWriteBuffer _ requestTime _ := (requestTime, ())
  nextIdleTime _ := (0, ())
  localClock _ := (0, ())

/-- `struct buffer`. -/
structure Buffer where
  size : Nat
  remaining : Nat
  deriving DecidableEq, Repr

/-- `buffer_init`. -/
def bufferInit (size : Nat) : Buffer := { size, remaining := size }

/-- `buffer_allocate`: the 32-bit number of bytes taken, 0 if they are not there. -/
def bufferAllocate (buf : Buffer) (size : Nat) : Except Bug (Nat × Buffer) := do
  nvmevAssert (size ≤ buf.size) .bufferAllocate
  let size := if buf.remaining < size then 0 else size
  pure (u32 size, { buf with remaining := buf.remaining - size })

/-- `buffer_release`. -/
def bufferRelease (buf : Buffer) (size : Nat) : Buffer :=
  { buf with remaining := u64 (buf.remaining + size) }

/-- `buffer_refill`. -/
def bufferRefill (buf : Buffer) : Buffer := { buf with remaining := buf.size }

/-! ## Requests -/

/-- A buffer that an internal operation releases to. -/
inductive BufferRef where
  | writeBuffer
  | zoneWriteBuffer (zid : Nat)
  | zrwaBuffer (zid : Nat)
  deriving DecidableEq, Repr

/-- A call of `schedule_internal_operation`. -/
structure InternalOp where
  sqid : Nat
  nsecsTarget : Nat
  writeBuffer : BufferRef
  buffsToRelease : Nat
  deriving DecidableEq, Repr

/-- What a handler leaves: its return value, the FTL, the submission-queue entry, the result and
the internal operations it scheduled. -/
structure IoOutcome (σ : Type) where
  accepted : Bool
  ftl : σ
  cmd : RwCommand
  ret : Result
  ops : List InternalOp := []

/-- `struct nvmev_request` with a read or write command. -/
structure RwRequest where
  cmd : RwCommand
  sqId : Nat := 1
  nsecsStart : Nat := 0
  deriving DecidableEq, Repr

/-- The result that `__nvmev_proc_io` passes to a handler. -/
def RwRequest.initialResult (req : RwRequest) : Result :=
  { status := Sc.success, nsecsTarget := req.nsecsStart }

theorem bufferAllocate_eq {buf buf' : Buffer} {size got : Nat}
    (h : bufferAllocate buf size = .ok (got, buf')) : size ≤ buf.size ∧
      got = u32 (if buf.remaining < size then 0 else size) ∧
      buf' = { buf with remaining := buf.remaining - if buf.remaining < size then 0 else size } := by
  unfold bufferAllocate at h
  obtain ⟨u, hs, h⟩ := Outcome.bind_ok.mp h
  cases h
  exact ⟨Outcome.ensure_ok.mp hs, rfl, rfl⟩

theorem bufferAllocate_remaining_le {buf buf' : Buffer} {size got : Nat}
    (h : bufferAllocate buf size = .ok (got, buf')) : buf'.remaining ≤ buf.remaining := by
  obtain ⟨-, -, rfl⟩ := bufferAllocate_eq h
  exact Nat.sub_le _ _

/-- An allocation that takes bytes finds them all. -/
theorem bufferAllocate_le_remaining {buf buf' : Buffer} {size got : Nat}
    (h : bufferAllocate buf size = .ok (got, buf')) (hgot : got ≠ 0) : size ≤ buf.remaining := by
  obtain ⟨-, rfl, -⟩ := bufferAllocate_eq h
  by_contra hlt
  rw [if_pos (by omega)] at hgot
  exact hgot rfl

/-- An allocation below 2^32 bytes either takes all of them or fails and changes nothing. -/
theorem bufferAllocate_cases {buf buf' : Buffer} {size got : Nat} (hs : size < 2 ^ 32)
    (h : bufferAllocate buf size = .ok (got, buf')) :
    (got = size ∧ size ≤ buf.remaining ∧ buf' = { buf with remaining := buf.remaining - size }) ∨
      (got = 0 ∧ buf.remaining < size ∧ buf' = buf) := by
  obtain ⟨-, rfl, rfl⟩ := bufferAllocate_eq h
  by_cases hr : buf.remaining < size
  · rw [if_pos hr]
    exact .inr ⟨rfl, hr, rfl⟩
  · rw [if_neg hr]
    exact .inl ⟨u32_of_lt hs, by omega, rfl⟩

end Nvmev
