import NvmeVirt.Zns.MgmtSend

/-!
# Zoned reads and writes

`zns_read_write.c` and the dispatcher `zns_proc_nvme_io_cmd` (`zns_ftl.c`). A handler gets the
submission-queue entry by pointer: its outcome has the entry after the call, since a zone append
writes the address it got into it. A write of a zone without a random write area is
`znsWritePlain` (`__zns_write`), the others are `znsWriteZrwa` (`__zns_write_zrwa`).
-/

namespace Nvmev

open CInt

section Helpers

variable {τ : Type} (z : ZnsFtl τ)

/-- `__check_boundary_error`: true when the range stays in one zone. -/
def checkBoundaryError (slba nrLba : Nat) : Bool :=
  lbaToZone z slba == lbaToZone z (u64 (slba + nrLba - 1))

/-- `__increase_write_ptr`. `nr_lba` is 32 bits wide. -/
def increaseWritePtr (zid nrLba : Nat) : ZnsFtl τ :=
  let d := z.zoneDescs zid
  let curWritePtr := u64 (d.wp + u32 nrLba)
  let z := z.setDesc zid { d with wp := curWritePtr }
  if curWritePtr = u64 (zoneToSlba z zid + d.zoneCapacity) then
    changeZoneState (releaseZoneResource (releaseZoneResource z .openZone) .activeZone) zid .full
  else z

/-- `__lpn_to_ppa`. -/
def lpnToPpa (lpn : Nat) : Ppa :=
  let zone := lpnToZone z lpn
  let off := sub64 lpn (zoneToSlpn z zone)
  let sdie := u32 (u64 (zone * z.zp.diesPerZone) % z.ssd.sp.ttLuns)
  let die := u32 (sdie + off / z.ssd.sp.pgsPerOneshotpg % z.zp.diesPerZone)
  Ppa.ofFields (off % z.ssd.sp.pgsPerOneshotpg) 0 0 (dieToLun z die) (dieToChannel z die)

/-- The result at the label `out`: a command that must wait for the flash completes at
`nsecs_latest`, the others when their data is in the buffer. -/
def writeResult (sp : SsdParams) (cmd : RwCommand) (status nsecsXferCompleted nsecsLatest : Nat) :
    Result :=
  { status
    nsecsTarget :=
      if cmd.fua || !sp.writeEarlyCompletion then nsecsLatest else nsecsXferCompleted }

/-- The buffer `__zns_write` takes its bytes from. -/
def zoneBufferRef (zid : Nat) : BufferRef :=
  if z.zp.zoneWbSize ≠ 0 then .zoneWriteBuffer zid else .writeBuffer

/-- The loop variables of the two write loops. -/
structure FlushState (τ : Type) where
  perf : τ
  nsecsLatest : Nat
  ops : List InternalOp

/-- One NAND program of a one-shot page at `ppa`, and the release of `bufs` bytes when it is
done. -/
def flushOneshot (B : PerfModel τ) (sqId stime : Nat) (ref : BufferRef) (bufs : Nat) (ppa : Ppa)
    (s : FlushState τ) : FlushState τ :=
  let (nsecsCompleted, perf) := B.advanceNand s.perf
    { type := .userIo, cmd := .write, stime, ppa
      xferSize := z.ssd.sp.pgsPerOneshotpg * z.ssd.sp.pgsz }
  { perf
    nsecsLatest := max nsecsCompleted s.nsecsLatest
    ops := s.ops ++ [{ sqid := sqId, nsecsTarget := nsecsCompleted, writeBuffer := ref
                       buffsToRelease := bufs }] }

/-- The loop of `__zns_write` over the pages `lpn..elpn`. A turn advances by `pgs ≥ 1` pages, so
the number of pages left bounds the turns. -/
def writeLoop (B : PerfModel τ) (sqId stime zoneElpn : Nat) (ref : BufferRef) (elpn : Nat) :
    Nat → Nat → FlushState τ → FlushState τ
  | 0, _, s => s
  | fuel + 1, lpn, s =>
    if lpn ≤ elpn then
      let sp := z.ssd.sp
      let ppa := lpnToPpa z lpn
      let pgOff := ppa.pg % sp.pgsPerOneshotpg
      let pgs := min (elpn - lpn + 1) (sp.pgsPerOneshotpg - pgOff)
      let s :=
        if pgOff + pgs = sp.pgsPerOneshotpg ∨ lpn + pgs - 1 = zoneElpn then
          let unalignedSpace := z.zp.zoneSize % (sp.pgsPerOneshotpg * sp.pgsz)
          let bufs :=
            if lpn + pgs - 1 = zoneElpn ∧ unalignedSpace > 0 then unalignedSpace
            else sp.pgsPerOneshotpg * sp.pgsz
          flushOneshot z B sqId stime ref bufs ppa s
        else s
      writeLoop B sqId stime zoneElpn ref elpn fuel (lpn + pgs) s
    else s

/-- The loop of `__zns_write_zrwa` over the `remaining` pages from `lpn`. -/
def zrwaLoop (B : PerfModel τ) (sqId stime zid : Nat) :
    Nat → Nat → Nat → FlushState τ → FlushState τ
  | 0, _, _, s => s
  | fuel + 1, lpn, remaining, s =>
    if remaining > 0 then
      let sp := z.ssd.sp
      let ppa := lpnToPpa z lpn
      let pgOff := ppa.pg % sp.pgsPerOneshotpg
      let pgs := min remaining (sp.pgsPerOneshotpg - pgOff)
      let s :=
        if pgOff + pgs = sp.pgsPerOneshotpg then
          flushOneshot z B sqId stime (.zrwaBuffer zid) (sp.pgsPerOneshotpg * sp.pgsz) ppa s
        else s
      zrwaLoop B sqId stime zid fuel (lpn + pgs) (remaining - pgs) s
    else s

/-- `z` after the loop. -/
def ZnsFtl.setPerf (perf : τ) : ZnsFtl τ := { z with ssd := { z.ssd with perf } }

end Helpers

section Write

variable {τ : Type} (B : PerfModel τ) (z : ZnsFtl τ) (req : RwRequest)

/-- `case ZONE_STATE_CLOSED` of `__zns_write`: `none` to go on, or the status of `goto out`. -/
def openImplicitly (z : ZnsFtl τ) (zid : Nat) : Option Nat × ZnsFtl τ :=
  match acquireZoneResource z .openZone with
  | (false, z) => (some Sc.znsNoOpenZone, z)
  | (true, z) => (none, changeZoneState z zid .openedImpl)

/-- The `switch` of `__zns_write` on the state of the zone. -/
def writeSwitch (zid slba : Nat) : Option Nat × ZnsFtl τ :=
  match (z.zoneDescs zid).state with
  | .empty =>
    if slba ≠ (z.zoneDescs zid).zslba then (some Sc.znsInvalidWrite, z)
    else if isZoneResourceFull z .activeZone then (some Sc.znsNoActiveZone, z)
    else if isZoneResourceFull z .openZone then (some Sc.znsNoOpenZone, z)
    else openImplicitly (acquireZoneResource z .activeZone).2 zid
  | .closed => openImplicitly z zid
  | .openedImpl | .openedExpl => (none, z)
  | .full => (some Sc.znsErrFull, z)
  | .readOnly => (some Sc.znsErrReadOnly, z)
  | .offline => (some Sc.znsErrOffline, z)

/-- The checks of `__zns_write` after the buffer allocation, and its `switch`. -/
def writeChecks (zid slba nrLba : Nat) : Option Nat × ZnsFtl τ :=
  if lbaToByte nrLba % z.ssd.sp.writeUnitSize ≠ 0 then (some Sc.znsInvalidWrite, z)
  else if checkBoundaryError z slba nrLba = false then (some Sc.znsErrBoundary, z)
  else if slba ≠ (z.zoneDescs zid).wp then (some Sc.znsInvalidWrite, z)
  else writeSwitch z zid slba

/-- `__zns_write`. -/
def znsWritePlain : Except Bug (IoOutcome (ZnsFtl τ)) := do
  let nrLba := req.cmd.nrLbas
  let zid := lbaToZone z req.cmd.slba
  let slba := if req.cmd.opcode = .zoneAppend then (z.zoneDescs zid).wp else req.cmd.slba
  let cmd := { req.cmd with slba }
  let slpn := lbaToLpn z slba
  let elpn := lbaToLpn z (u64 (slba + nrLba - 1))
  let zoneElpn := zoneToElpn z zid
  let ref := zoneBufferRef z zid
  let (got, buf) ← bufferAllocate (z.buffer ref) (lbaToByte nrLba)
  let z := z.setBuffer buf ref
  if got < lbaToByte nrLba then
    return { accepted := false, ftl := z, cmd, ret := req.initialResult }
  match writeChecks z zid slba nrLba with
  | (some status, z) =>
    return { accepted := true, ftl := z, cmd
             ret := writeResult z.ssd.sp cmd status req.nsecsStart req.nsecsStart }
  | (none, z) =>
    let z := increaseWritePtr z zid nrLba
    let (nsecsXferCompleted, perf) :=
      B.advanceWriteBuffer z.ssd.perf req.nsecsStart (lbaToByte nrLba)
    let s := writeLoop z B req.sqId nsecsXferCompleted zoneElpn ref elpn (elpn + 1 - slpn) slpn
      { perf, nsecsLatest := nsecsXferCompleted, ops := [] }
    return { accepted := true, ftl := z.setPerf s.perf, cmd, ops := s.ops
             ret := writeResult z.ssd.sp cmd Sc.success nsecsXferCompleted s.nsecsLatest }

/-- `buffer_allocate` on the ZRWA buffer of a zone. The array of these buffers is a null pointer
when their size is 0. -/
def zrwaBufferAllocate (zid size : Nat) : Except Bug (Nat × ZnsFtl τ) := do
  Outcome.ensure (z.zp.zrwaBufferSize ≠ 0) (.nullPointer .znsWriteZrwa)
  let (got, buf) ← bufferAllocate (z.zrwaBuffer zid) size
  return (got, z.setBuffer buf (.zrwaBuffer zid))

/-- `case ZONE_STATE_CLOSED` and `ZONE_STATE_EMPTY` of `__zns_write_zrwa`: opening the zone takes
`zrwa_size` bytes of its ZRWA buffer, and a failure there is an assertion. -/
def openZrwa (zid : Nat) : Except Bug (Option Nat × ZnsFtl τ) :=
  match acquireZoneResource z .openZone with
  | (false, z) => .ok (some Sc.znsNoOpenZone, z)
  | (true, z) => do
    let (got, z) ← zrwaBufferAllocate z zid z.zp.zrwaSize
    nvmevAssert (got ≠ 0) .znsWriteZrwa
    return (none, changeZoneState z zid .openedImpl)

/-- The checks and the `switch` of `__zns_write_zrwa`. -/
def zrwaChecks (zid slba nrLba : Nat) : Except Bug (Option Nat × ZnsFtl τ) :=
  let elba := u64 (slba + nrLba - 1)
  let d := z.zoneDescs zid
  if lbaToByte nrLba % z.ssd.sp.writeUnitSize ≠ 0 then .ok (some Sc.znsInvalidWrite, z)
  else if checkBoundaryError z slba nrLba = false then .ok (some Sc.znsErrBoundary, z)
  else if slba < d.wp ∨ sub64 (u64 (d.wp + u32 (2 * z.zp.lbasPerZrwa))) 1 < elba then
    .ok (some Sc.znsInvalidWrite, z)
  else match d.state with
    | .closed | .empty => openZrwa z zid
    | .openedImpl | .openedExpl => .ok (none, z)
    | .full => .ok (some Sc.znsErrFull, z)
    | .readOnly => .ok (some Sc.znsErrReadOnly, z)
    | .offline => .ok (some Sc.znsErrOffline, z)

/-- `nr_lbas_flush`: how far a write up to `elba` moves the write pointer `prevWp`. -/
def nrLbasFlush (zid prevWp elba : Nat) : Except Bug Nat :=
  let zrwaImplStart := u64 (prevWp + z.zp.lbasPerZrwa)
  if zrwaImplStart ≤ elba then do
    Outcome.ensure (z.zp.lbasPerZrwafg ≠ 0) (.divideByZero .znsWriteZrwa)
    return u64 (divRoundUp (elba - zrwaImplStart + 1) z.zp.lbasPerZrwafg * z.zp.lbasPerZrwafg)
  else if elba = zoneToElba z zid then .ok (u64 (sub64 elba prevWp + 1))
  else .ok 0

/-- The implicit flush of `flush` blocks: the second allocation in the zone's ZRWA buffer, and
whether it failed. -/
def flushImplicit (zid flush : Nat) : Except Bug (Bool × ZnsFtl τ) :=
  if flush > 0 then do
    let (got, z) ← zrwaBufferAllocate z zid (lbaToByte flush)
    return if got = 0 then (true, z) else (false, increaseWritePtr z zid flush)
  else .ok (false, z)

/-- `__zns_write_zrwa`. -/
def znsWriteZrwa : Except Bug (IoOutcome (ZnsFtl τ)) := do
  let cmd := req.cmd
  let nrLba := cmd.nrLbas
  let elba := u64 (cmd.slba + nrLba - 1)
  let zid := lbaToZone z cmd.slba
  let prevWp := (z.zoneDescs zid).wp
  match ← zrwaChecks z zid cmd.slba nrLba with
  | (some status, z) =>
    return { accepted := true, ftl := z, cmd
             ret := writeResult z.ssd.sp cmd status req.nsecsStart req.nsecsStart }
  | (none, z) =>
    let flush ← nrLbasFlush z zid prevWp elba
    let (refused, z) ← flushImplicit z zid flush
    if refused then
      return { accepted := false, ftl := z, cmd, ret := req.initialResult }
    let (nsecsXferCompleted, perf) :=
      B.advanceWriteBuffer z.ssd.perf req.nsecsStart (lbaToByte nrLba)
    let remaining := flush / z.ssd.sp.secsPerPg
    let s := zrwaLoop z B req.sqId nsecsXferCompleted zid remaining (lbaToLpn z prevWp) remaining
      { perf, nsecsLatest := nsecsXferCompleted, ops := [] }
    return { accepted := true, ftl := z.setPerf s.perf, cmd, ops := s.ops
             ret := writeResult z.ssd.sp cmd Sc.success nsecsXferCompleted s.nsecsLatest }

/-- `zns_write`. -/
def znsWrite : Except Bug (IoOutcome (ZnsFtl τ)) :=
  if (z.zoneDescs (lpnToZone z (lbaToLpn z req.cmd.slba))).zrwav = false then
    znsWritePlain B z req
  else znsWriteZrwa B z req

end Write

section Read

variable {τ : Type} (B : PerfModel τ) (z : ZnsFtl τ)

/-- The loop of `zns_read` over the pages `lpn..elpn`: one NAND read a flash page. -/
def readLoop (stime elpn : Nat) : Nat → Nat → Nat → τ → Nat × τ
  | 0, _, nsecsLatest, perf => (nsecsLatest, perf)
  | fuel + 1, lpn, nsecsLatest, perf =>
    if lpn ≤ elpn then
      let sp := z.ssd.sp
      let ppa := lpnToPpa z lpn
      let pgOff := ppa.pg % sp.pgsPerFlashpg
      let pgs := min (elpn - lpn + 1) (sp.pgsPerFlashpg - pgOff)
      let (nsecsCompleted, perf) := B.advanceNand perf
        { type := .userIo, cmd := .read, stime, ppa, xferSize := pgs * sp.pgsz }
      readLoop stime elpn fuel (lpn + pgs) (max nsecsCompleted nsecsLatest) perf
    else (nsecsLatest, perf)

/-- `zns_read`. -/
def znsRead (req : RwRequest) : IoOutcome (ZnsFtl τ) :=
  let cmd := req.cmd
  let nrLba := cmd.nrLbas
  let slpn := lbaToLpn z cmd.slba
  let elpn := lbaToLpn z (u64 (cmd.slba + nrLba - 1))
  let zid := lpnToZone z slpn
  let status :=
    if (z.zoneDescs zid).state = .offline then Sc.znsErrOffline
    else if checkBoundaryError z cmd.slba nrLba = false then Sc.znsErrBoundary
    else Sc.success
  let stime := req.nsecsStart +
    if lbaToByte nrLba ≤ 4096 then z.ssd.sp.fw4kbRdLat else z.ssd.sp.fwRdLat
  let (nsecsLatest, perf) := readLoop B z stime elpn (elpn + 1 - slpn) slpn stime z.ssd.perf
  let (nsecsCompleted, perf) := B.advancePcie perf nsecsLatest (nrLba * z.ssd.sp.secsz)
  { accepted := true, ftl := z.setPerf perf, cmd
    ret := { status, nsecsTarget := max nsecsCompleted nsecsLatest } }

/-- `zns_flush`. -/
def znsFlush : Result × ZnsFtl τ :=
  let (start, perf) := B.localClock z.ssd.perf
  let (idle, perf) := B.nextIdleTime perf
  ({ status := Sc.success, nsecsTarget := max start idle }, z.setPerf perf)

end Read

/-- A command of a zoned namespace. `junk` is the indeterminate status of an unknown zone
management action. -/
inductive ZnsRequest where
  | rw (req : RwRequest)
  | zoneMgmtSend (cmd : ZoneMgmtSend) (nsecsStart junk : Nat)
  deriving DecidableEq, Repr

/-- The FTL after `zns_proc_nvme_io_cmd` on a write, zone append, read, flush or zone management
send command. -/
def znsProcNvmeIoCmd {τ : Type} (B : PerfModel τ) (z : ZnsFtl τ) : ZnsRequest → Except Bug (ZnsFtl τ)
  | .rw req => match req.cmd.opcode with
    | .write | .zoneAppend => do
      let o ← znsWrite B z req
      pure o.ftl
    | .read => .ok (znsRead B z req).ftl
    | .flush => .ok (znsFlush B z).2
    | _ => .ok z
  | .zoneMgmtSend cmd nsecsStart junk => do
    let (_, z) ← znsZmgmtSend z junk cmd nsecsStart
    pure z

end Nvmev
