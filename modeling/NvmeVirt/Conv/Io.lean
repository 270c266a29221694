import NvmeVirt.Conv.Gc

/-!
# The commands of the conventional FTL

`conv_init_namespace`, `conv_read`, `conv_write`, `conv_flush` and the dispatcher
`conv_proc_nvme_io_cmd`. A namespace has `nr_parts` partitions, each with an FTL and the timing
model of its SSD; a logical page `lpn` is the page `lpn / nr_parts` of the partition
`lpn % nr_parts`.

The tables of an FTL are `vmalloc`ed and filled with an `int` counter. What is not filled is what the
memory held before: `raw`.
-/

namespace Nvmev

open CInt Function Outcome

/-! ## Initialization -/

/-- `conv_init_params`, for the ratio of the physical to the logical space that
`OP_AREA_PERCENT` gives. -/
def convInitParams (pbaPcent : Nat) : ConvParams :=
  { gcThresLines := 2, gcThresLinesHigh := 2, enableGcDelay := true, pbaPcent }

/-- `init_lines`. -/
def initLines (sp : SsdParams) : Except Bug LineMgmt := do
  nvmevAssert (sp.blksPerPl = sp.ttLines) .initLines
  pure {
    lines := fun _ => { ipc := 0, vpc := 0 }
    freeLineList := List.range sp.blksPerPl
    victimLinePq := Pqueue.init sp.ttLines fun _ => 0
    fullLineList := []
    ttLines := sp.blksPerPl
    freeLineCnt := sp.blksPerPl
    victimLineCnt := 0
    fullLineCnt := 0 }

/-- `conv_init_ftl` and `ssd_init`, on the memory `raw`. -/
def convInitFtl (cp : ConvParams) (sp : SsdParams) (raw : ConvFtl) : Except Bug ConvFtl := do
  let lm ← initLines sp
  let f := { raw with
    sp, cp, lm
    pages := fun _ => { status := .free, nsecs := sp.secsPerPg }
    blocks := fun _ => { npgs := sp.pgsPerBlk, ipc := 0, vpc := 0 }
    maptbl := fillLoop sp.ttPgs unmappedPpa raw.maptbl
    rmap := fillLoop sp.ttPgs invalidLpn raw.rmap
    issued := [] }
  let f ← prepareWritePointer f .userIo
  let f ← prepareWritePointer f .gcIo
  pure { f with wfc :=
    { writeCredits := u32 sp.pgsPerLine, creditsToRefill := u32 sp.pgsPerLine } }

/-- `struct nvmev_ns` of a conventional FTL: its partitions, the write buffer they share and the
state of the timing model. -/
structure ConvNs (τ : Type) where
  nrParts : Nat
  ftls : Nat → ConvFtl
  writeBuffer : Buffer
  perf : τ
  /-- In bytes. -/
  size : Nat

/-- `conv_init_namespace`. -/
def convInitNamespace {τ : Type} (cfg : SsdConfig) (pbaPcent nrParts size : Nat)
    (raw : Nat → ConvFtl) (perf : τ) : Except Bug (ConvNs τ) := do
  let sp ← ssdInitParams cfg size nrParts
  let ftls ← forRange nrParts raw fun ftls i => do
    let f ← convInitFtl (convInitParams pbaPcent) sp (ftls i)
    pure (update ftls i f)
  pure { nrParts, ftls, perf
         writeBuffer := bufferInit sp.writeBufferSize
         size := u64 (size * 100) / pbaPcent }

/-! ## Writes -/

/-- The FTL part of one turn of the loop of `conv_write`: the page that is written. -/
def convWritePage (f : ConvFtl) (localLpn : Nat) : Except Bug (Ppa × ConvFtl) := do
  let old := f.maptbl localLpn
  let f ← if mappedPpa old then do
      let f ← markPageInvalid f old
      setRmapEnt f invalidLpn old
    else pure f
  let ppa ← getNewPage f .userIo
  let f ← setMaptblEnt f localLpn ppa
  let f ← setRmapEnt f localLpn ppa
  let f ← markPageValid f ppa
  let f ← advanceWritePointer f .userIo
  pure (ppa, f)

/-- `convWritePage` up to the page that it overwrites. -/
def invalidateOldPage (f : ConvFtl) (localLpn : Nat) : Except Bug ConvFtl :=
  if mappedPpa (f.maptbl localLpn) then do
    let g ← markPageInvalid f (f.maptbl localLpn)
    setRmapEnt g invalidLpn (f.maptbl localLpn)
  else pure f

theorem convWritePage_eq (f : ConvFtl) (localLpn : Nat) : convWritePage f localLpn =
    invalidateOldPage f localLpn >>= fun f => programPage f .userIo localLpn := by
  unfold convWritePage invalidateOldPage programPage
  dsimp only
  split
  · rw [bind_assoc]
  · rfl

section

variable {τ : Type} (B : Nat → PerfModel τ)

/-- The variables of the loop of `conv_write`. -/
structure WriteLoop (τ : Type) where
  ftls : Nat → ConvFtl
  perf : τ
  nsecsLatest : Nat
  ops : List InternalOp

/-- One turn of the loop of `conv_write`. -/
def convWriteLpn (nrParts sqId stime : Nat) (s : WriteLoop τ) (lpn : Nat) :
    Except Bug (WriteLoop τ) := do
  let p := lpn % nrParts
  let (ppa, f) ← convWritePage (s.ftls p) (lpn / nrParts)
  let xferSize := f.sp.pgsz * f.sp.pgsPerOneshotpg
  let s :=
    if lastPgInWordline f ppa then
      let (nsecsCompleted, perf) :=
        (B p).advanceNand s.perf { type := .userIo, cmd := .write, xferSize, stime, ppa }
      { s with
        perf
        nsecsLatest := max nsecsCompleted s.nsecsLatest
        ops := s.ops ++ [{ sqid := sqId, nsecsTarget := nsecsCompleted, writeBuffer := .writeBuffer
                           buffsToRelease := f.sp.pgsPerOneshotpg * f.sp.pgsz }] }
    else s
  let f ← checkAndRefillWriteCredit (consumeWriteCredit f)
  -- The commands of the garbage collection come after the one of the write.
  let perf := f.issued.foldl (fun t cmd => ((B p).advanceNand t cmd).2) s.perf
  pure { s with perf, ftls := update s.ftls p { f with issued := [] } }

/-- What one turn does: the FTL of the partition of `lpn` writes a page and collects garbage, and at the
end of a word line a release of a one-shot page is scheduled. -/
structure WroteLpn (s : WriteLoop τ) (p : Nat) (ppa : Ppa) (f f' : ConvFtl) (s' : WriteLoop τ) :
    Prop where
  ftls : s'.ftls = update s.ftls p { f' with issued := [] }
  ops : s'.ops.map (·.buffsToRelease) = s.ops.map (·.buffsToRelease) ++
    if lastPgInWordline f ppa then [f.sp.pgsPerOneshotpg * f.sp.pgsz] else []

theorem convWriteLpn_spec {S : Prop} {nrParts sqId stime lpn : Nat} {s : WriteLoop τ}
    {Q : Ppa × ConvFtl → Prop} {R : WriteLoop τ → Prop}
    (hpage : Spec S (convWritePage (s.ftls (lpn % nrParts)) (lpn / nrParts)) Q)
    (hcredit : ∀ ppa f, Q (ppa, f) → Spec S (checkAndRefillWriteCredit (consumeWriteCredit f))
      fun f' => ∀ s', WroteLpn s (lpn % nrParts) ppa f f' s' → R s') :
    Spec S (convWriteLpn B nrParts sqId stime s lpn) R := by
  unfold convWriteLpn
  dsimp only
  refine hpage.bind fun r hr => (hcredit r.1 r.2 hr).bind fun f' hf' => .ret (hf' _ ⟨?_, ?_⟩)
  · dsimp only
    split <;> rfl
  · dsimp only
    split
    · rw [List.map_append]
      rfl
    · rw [List.append_nil]

/-- `conv_write`. -/
def convWrite (ns : ConvNs τ) (req : RwRequest) : Except Bug (IoOutcome (ConvNs τ)) := do
  let sp := (ns.ftls 0).sp
  let cmd := req.cmd
  let ret := req.initialResult
  let nrLba := cmd.nrLbas
  let startLpn := u64 cmd.slba / sp.secsPerPg
  let endLpn := u64 (cmd.slba + nrLba - 1) / sp.secsPerPg
  if endLpn / ns.nrParts ≥ sp.ttPgs then
    pure { accepted := false, ftl := ns, cmd, ret }
  else
    let (allocatedBufSize, writeBuffer) ← bufferAllocate ns.writeBuffer (lbaToByte nrLba)
    if allocatedBufSize < lbaToByte nrLba then
      pure { accepted := false, ftl := { ns with writeBuffer }, cmd, ret }
    else
      let (nsecsXferCompleted, perf) :=
        (B 0).advanceWriteBuffer ns.perf req.nsecsStart (lbaToByte nrLba)
      let s ← forRange (endLpn + 1 - startLpn)
        { ftls := ns.ftls, perf, nsecsLatest := nsecsXferCompleted, ops := [] } fun s i =>
          convWriteLpn B ns.nrParts req.sqId nsecsXferCompleted s (startLpn + i)
      let nsecsTarget :=
        if cmd.fua || !sp.writeEarlyCompletion then s.nsecsLatest else nsecsXferCompleted
      pure { accepted := true, ftl := { ns with writeBuffer, ftls := s.ftls, perf := s.perf }, cmd
             ret := { status := Sc.success, nsecsTarget }, ops := s.ops }

/-! ## Reads and flushes -/

/-- `is_same_flash_page`. -/
def isSameFlashPage (sp : SsdParams) (ppa1 ppa2 : Ppa) : Bool :=
  ppa1.blk == ppa2.blk && ppa1.pl == ppa2.pl && ppa1.lun == ppa2.lun && ppa1.ch == ppa2.ch &&
    ppa1.pg / sp.pgsPerFlashpg == ppa2.pg / sp.pgsPerFlashpg

/-- The variables of the loop of `conv_read`. -/
structure ReadLoop (τ : Type) where
  perf : τ
  nsecsLatest : Nat
  prevPpa : Ppa
  xferSize : Nat

/-- The read of the pages that are aggregated so far. -/
def ReadLoop.issue (P : PerfModel τ) (stime : Nat) (s : ReadLoop τ) : ReadLoop τ :=
  if s.xferSize > 0 then
    let (nsecsCompleted, perf) := P.advanceNand s.perf
      { type := .userIo, cmd := .read, xferSize := s.xferSize, stime, interleavePciDma := true
        ppa := s.prevPpa }
    { s with perf, nsecsLatest := max nsecsCompleted s.nsecsLatest }
  else s

/-- One turn of the inner loop of `conv_read`. -/
def convReadLpn (P : PerfModel τ) (f : ConvFtl) (stime : Nat) (s : ReadLoop τ) (localLpn : Nat) :
    ReadLoop τ :=
  let curPpa := f.maptbl localLpn
  if !mappedPpa curPpa || !validPpa f.sp curPpa then s
  else if mappedPpa s.prevPpa && isSameFlashPage f.sp curPpa s.prevPpa then
    { s with xferSize := u32 (s.xferSize + f.sp.pgsz) }
  else { s.issue P stime with xferSize := f.sp.pgsz, prevPpa := curPpa }

/-- The pages of one partition from `startLpn` on. -/
def convReadPart (ns : ConvNs τ) (stime endLpn : Nat) (s : ReadLoop τ) (startLpn : Nat) :
    ReadLoop τ :=
  let p := startLpn % ns.nrParts
  let s := { s with xferSize := 0, prevPpa := (ns.ftls p).maptbl (startLpn / ns.nrParts) }
  let s := (List.range ((endLpn - startLpn) / ns.nrParts + 1)).foldl (fun s i =>
    convReadLpn (B p) (ns.ftls p) stime s ((startLpn + i * ns.nrParts) / ns.nrParts)) s
  s.issue (B p) stime

/-- `conv_read`. -/
def convRead (ns : ConvNs τ) (req : RwRequest) : IoOutcome (ConvNs τ) :=
  let sp := (ns.ftls 0).sp
  let cmd := req.cmd
  let nrLba := cmd.nrLbas
  let startLpn := u64 cmd.slba / sp.secsPerPg
  let endLpn := u64 (cmd.slba + nrLba - 1) / sp.secsPerPg
  if endLpn / ns.nrParts ≥ sp.ttPgs then
    { accepted := false, ftl := ns, cmd, ret := req.initialResult }
  else
    let stime := req.nsecsStart +
      if lbaToByte nrLba ≤ 4096 * ns.nrParts then sp.fw4kbRdLat else sp.fwRdLat
    let s := (List.range (min ns.nrParts (endLpn + 1 - startLpn))).foldl (fun s i =>
      convReadPart B ns stime endLpn s (startLpn + i))
      { perf := ns.perf, nsecsLatest := req.nsecsStart, prevPpa := unmappedPpa, xferSize := 0 }
    { accepted := true, ftl := { ns with perf := s.perf }, cmd
      ret := { status := Sc.success, nsecsTarget := s.nsecsLatest } }

/-- `conv_flush`. -/
def convFlush (ns : ConvNs τ) (req : RwRequest) : IoOutcome (ConvNs τ) :=
  let (start, perf) := (B 0).localClock ns.perf
  let (latest, perf) := (List.range ns.nrParts).foldl (fun (latest, perf) i =>
    let (idle, perf) := (B i).nextIdleTime perf
    (max latest idle, perf)) (start, perf)
  { accepted := true, ftl := { ns with perf }, cmd := req.cmd
    ret := { status := Sc.success, nsecsTarget := latest } }

/-- `conv_proc_nvme_io_cmd`. -/
def convProcNvmeIoCmd (ns : ConvNs τ) (req : RwRequest) : Except Bug (IoOutcome (ConvNs τ)) :=
  match req.cmd.opcode with
  | .write => convWrite B ns req
  | .read => pure (convRead B ns req)
  | .flush => pure (convFlush B ns req)
  | _ => pure { accepted := true, ftl := ns, cmd := req.cmd, ret := req.initialResult }

end

end Nvmev
