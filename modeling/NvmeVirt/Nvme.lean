import NvmeVirt.Lib.CInt
import NvmeVirt.Lib.Outcome

/-!
# NVMe commands, requests and results

The part of `nvme.h`, `nvme_zns.h` and `nvmev.h` that the FTLs and the I/O path read. A field of
a command is a natural number; the functions that read a field narrower than 64 bits truncate it
to its width, so every natural number stands for the field value it is congruent to.

`Bug` is a stop of the kernel thread: a failed `NVMEV_ASSERT` (`BUG_ON`), a null pointer, an access
outside an array, a division by zero, a loop that does not end or the use of a variable that was not
assigned. It names the function it happens in.
-/

namespace Nvmev

open CInt

/-- The I/O opcodes of `enum nvme_opcode` that a handler tells apart. -/
inductive Opcode where
  | flush | write | read
  | zoneMgmtSend | zoneMgmtRecv | zoneAppend
  | kvStore | kvAppend | kvRetrieve | kvDelete | kvIterReq | kvIterRead | kvExist | kvBatch
  | other (code : Nat)
  deriving DecidableEq, Repr

/-- `struct nvme_rw_command`. -/
structure RwCommand where
  opcode : Opcode
  commandId : Nat := 0
  nsid : Nat := 1
  prp1 : Nat := 0
  prp2 : Nat := 0
  slba : Nat
  /-- The 16-bit, 0-based number of logical blocks. -/
  length : Nat
  control : Nat := 0
  deriving DecidableEq, Repr

/-- `LBA_BITS`, the same in every configuration. -/
def lbaBits : Nat := 9

/-- `LBA_SIZE`. -/
def lbaSize : Nat := 2 ^ lbaBits

/-- `LBA_TO_BYTE`. -/
def lbaToByte (lba : Nat) : Nat := u64 (lba <<< lbaBits)

/-- `BYTE_TO_LBA`. -/
def byteToLba (byte : Nat) : Nat := byte >>> lbaBits

/-- `cmd->length + 1`. -/
def RwCommand.nrLbas (cmd : RwCommand) : Nat := u16 cmd.length + 1

/-- `cmd->control & NVME_RW_FUA`. -/
def RwCommand.fua (cmd : RwCommand) : Bool := cmd.control.testBit 14

/-! Status codes `NVME_SC_*`. The ZNS ones count up from `(1 << 8) | 0xB6`. -/

namespace Sc

def success : Nat := 0x0
def invalidOpcode : Nat := 0x1
def invalidField : Nat := 0x2
def znsInvalidZoneOperation : Nat := 0x1b6
def znsZrwaRsrcUnavail : Nat := 0x1b7
def znsErrBoundary : Nat := 0x1b8
def znsErrFull : Nat := 0x1b9
def znsErrReadOnly : Nat := 0x1ba
def znsErrOffline : Nat := 0x1bb
def znsInvalidWrite : Nat := 0x1bc
def znsNoActiveZone : Nat := 0x1bd
def znsNoOpenZone : Nat := 0x1be
def znsInvalidTransition : Nat := 0x1bf

end Sc

/-- `struct nvmev_result`. -/
structure Result where
  status : Nat
  nsecsTarget : Nat
  deriving DecidableEq, Repr

/-- The functions a `Bug` can happen in. -/
inductive Site where
  | ssdInitParams | bufferAllocate
  | znsInitParams | znsWriteZrwa | zmgmtSendFlushExplicitZrwa
  | newMappingEntry | newMappingEntryByKey | findNextSlot | getMappingEntry | kvIterClose | kvIterRead
  | bitmapAllocatorInit | bitmapAllocate
  | initLines | prepareWritePointer | advanceWritePointer | getNewPage | setMaptblEnt | ppa2pgidx
  | markPageInvalid | markPageValid | markBlockFree | gcWritePage | cleanOneFlashpg
  | sqEntry | cqEntry | adminCreateCq | adminDeleteCq | adminCreateSq | adminDeleteSq
  | adminGetLogPage | identifyNamespace | identifyNamespaces | identifyNamespaceDesc | identifyZnsNamespace
  | identifyZnsCtrl | identifyCtrl | nvmevProcBars
  | pqueueInsert | chmodelInit | chmodelRequest | ssdAdvanceNand
  | doPerformIo | doPerformIoUsingDma
  deriving DecidableEq, Repr

/-- A stop of the kernel thread. -/
inductive Bug where
  /-- `NVMEV_ASSERT` or `BUG_ON`. -/
  | assertion (site : Site)
  | nullPointer (site : Site)
  /-- An access outside an array. -/
  | outOfBounds (site : Site)
  | divideByZero (site : Site)
  /-- A loop that does not end. -/
  | endlessLoop (site : Site)
  /-- The value of a variable that was not assigned. -/
  | uninitialized (site : Site)
  deriving DecidableEq, Repr

/-- `NVMEV_ASSERT(c)` in the function `site`. -/
def nvmevAssert (c : Prop) [Decidable c] (site : Site) : Except Bug Unit :=
  Outcome.ensure c (.assertion site)

theorem nrLbas_pos (cmd : RwCommand) : 0 < cmd.nrLbas := Nat.succ_pos _

theorem nrLbas_le (cmd : RwCommand) : cmd.nrLbas ≤ 2 ^ 16 := by
  have : u16 cmd.length < 2 ^ 16 := Nat.mod_lt _ (by decide)
  unfold RwCommand.nrLbas
  omega

theorem lbaToByte_of_lt {n : Nat} (h : n < 2 ^ 55) : lbaToByte n = n * 512 := by
  unfold lbaToByte lbaBits
  rw [Nat.shiftLeft_eq, u64_of_lt (by omega)]

end Nvmev
