import NvmeVirt.Conv.Pqueue
import NvmeVirt.Ssd.Nand

/-!
# The conventional FTL

`struct conv_ftl` and the functions of `conv_ftl.c` on one partition, up to the garbage collection.
The pages and blocks of the NAND (`struct ssd`) are part of the state. A line is the number of its
block; `pos` of a line is kept by the queue of victim lines, and the two lists of lines are lists of
numbers. `ipc` and `vpc` of a line are `int` patterns.

A NAND array is indexed by a `struct ppa` whose other fields are 0; an index outside the geometry is
an access outside the array. The NAND commands of the garbage collection are collected in `issued`:
it does not read the times that `ssd_advance_nand` returns.
-/

namespace Nvmev

open CInt Function Outcome

/-- `PG_FREE`, `PG_INVALID`, `PG_VALID`. -/
inductive PgStatus where
  | free | invalid | valid
  deriving DecidableEq, Repr

/-- `struct nand_page`. -/
structure NandPage where
  status : PgStatus
  nsecs : Nat
  deriving DecidableEq, Repr

/-- `struct nand_block`, without its pages and its write pointer. -/
structure NandBlock where
  npgs : Nat
  ipc : Nat
  vpc : Nat
  eraseCnt : BitVec 32 := 0
  deriving DecidableEq, Repr

/-- `struct line`. -/
structure Line where
  ipc : Nat
  vpc : Nat
  deriving DecidableEq, Repr

/-- `struct write_pointer`. -/
structure WritePointer where
  curline : Nat
  ch : Nat := 0
  lun : Nat := 0
  pg : Nat := 0
  blk : Nat
  pl : Nat := 0
  deriving DecidableEq, Repr

/-- `struct line_mgmt`. -/
structure LineMgmt where
  lines : Nat → Line
  freeLineList : List Nat
  victimLinePq : Pqueue Nat
  fullLineList : List Nat
  ttLines : Nat
  freeLineCnt : Nat
  victimLineCnt : Nat
  fullLineCnt : Nat

/-- `struct write_flow_control`. -/
structure WriteFlowControl where
  writeCredits : Nat
  creditsToRefill : Nat
  deriving DecidableEq, Repr

/-- `struct convparams`. -/
structure ConvParams where
  gcThresLines : Nat
  gcThresLinesHigh : Nat
  enableGcDelay : Bool
  pbaPcent : Nat
  deriving DecidableEq, Repr

/-- `struct conv_ftl`, with the pages and blocks of its `struct ssd`. -/
structure ConvFtl where
  sp : SsdParams
  cp : ConvParams
  pages : Ppa → NandPage
  blocks : Ppa → NandBlock
  maptbl : Nat → Ppa
  rmap : Nat → Nat
  wp : WritePointer
  gcWp : WritePointer
  lm : LineMgmt
  wfc : WriteFlowControl
  issued : List NandCmd := []

/-- `INVALID_LPN`. -/
def invalidLpn : Nat := 2 ^ 64 - 1

/-- `mapped_ppa`. -/
def mappedPpa (ppa : Ppa) : Bool := ppa != unmappedPpa

/-- `valid_ppa`. -/
def validPpa (sp : SsdParams) (ppa : Ppa) : Bool :=
  decide (ppa.ch < sp.nchs) && decide (ppa.lun < sp.lunsPerCh) && decide (ppa.pl < sp.plsPerLun) &&
    decide (ppa.blk < sp.blksPerPl) && decide (ppa.pg < sp.pgsPerBlk)

/-- The index of the page of `ppa`. -/
def Ppa.page (ppa : Ppa) : Ppa := { ppa with rsv := 0 }

/-- The index of the block of `ppa`. -/
def Ppa.block (ppa : Ppa) : Ppa := { ppa with pg := 0, rsv := 0 }

/-- `get_pg` and `get_blk` stay inside the NAND arrays. -/
def inBounds (sp : SsdParams) (ppa : Ppa) (site : Site) : Except Bug Unit :=
  ensure (validPpa sp ppa = true) (.outOfBounds site)

section Tables

variable (f : ConvFtl)

/-- `last_pg_in_wordline`. -/
def lastPgInWordline (ppa : Ppa) : Bool :=
  ppa.pg % f.sp.pgsPerOneshotpg == f.sp.pgsPerOneshotpg - 1

/-- `should_gc_high`. -/
def shouldGcHigh : Bool := decide (f.lm.freeLineCnt ≤ f.cp.gcThresLinesHigh)

/-- `set_maptbl_ent`. -/
def setMaptblEnt (lpn : Nat) (ppa : Ppa) : Except Bug ConvFtl := do
  nvmevAssert (lpn < f.sp.ttPgs) .setMaptblEnt
  pure { f with maptbl := update f.maptbl lpn ppa }

/-- The page index of `ppa2pgidx`. The product of the block number and `pgs_per_blk` is an `int`. -/
def pgidx (sp : SsdParams) (ppa : Ppa) : Nat :=
  u64 (ppa.ch * sp.pgsPerCh + ppa.lun * sp.pgsPerLun + ppa.pl * sp.pgsPerPl +
    ulong (u32 (ppa.blk * sp.pgsPerBlk)) + ppa.pg)

/-- `ppa2pgidx`. -/
def ppa2pgidx (ppa : Ppa) : Except Bug Nat := do
  nvmevAssert (pgidx f.sp ppa < f.sp.ttPgs) .ppa2pgidx
  pure (pgidx f.sp ppa)

/-- `get_rmap_ent`. -/
def getRmapEnt (ppa : Ppa) : Except Bug Nat := do
  let idx ← ppa2pgidx f ppa
  pure (f.rmap idx)

/-- `set_rmap_ent`. -/
def setRmapEnt (lpn : Nat) (ppa : Ppa) : Except Bug ConvFtl := do
  let idx ← ppa2pgidx f ppa
  pure { f with rmap := update f.rmap idx lpn }

end Tables

/-! ## Lines -/

/-- `victim_line_cmp_pri`. -/
def victimLineCmpPri (next curr : Nat) : Bool := decide (next > curr)

namespace LineMgmt

variable (lm : LineMgmt)

/-- `victim_line_get_pri`. -/
def pri (l : Nat) : Nat := ulong (lm.lines l).vpc

/-- `list_del_init(&line->entry)`. -/
def delEntry (l : Nat) : LineMgmt :=
  { lm with freeLineList := lm.freeLineList.erase l, fullLineList := lm.fullLineList.erase l }

/-- The line goes to the end of the free list. -/
def addFree (l : Nat) : LineMgmt :=
  { lm with freeLineList := lm.freeLineList ++ [l], freeLineCnt := u32 (lm.freeLineCnt + 1) }

/-- The line goes to the end of the full list. -/
def addFull (l : Nat) : LineMgmt :=
  { lm with fullLineList := lm.fullLineList ++ [l], fullLineCnt := u32 (lm.fullLineCnt + 1) }

/-- The line goes into the queue of victim lines, which has space for every line. -/
def addVictim (l : Nat) : LineMgmt :=
  { lm with
    victimLinePq := lm.victimLinePq.push victimLineCmpPri lm.pri l
    victimLineCnt := u32 (lm.victimLineCnt + 1) }

/-- `get_next_free_line`. -/
def getNextFreeLine : Option (Nat × LineMgmt) :=
  match lm.freeLineList with
  | [] => none
  | l :: _ => some (l, { lm.delEntry l with freeLineCnt := dec32 lm.freeLineCnt })

end LineMgmt

/-! ## Write pointers -/

/-- `check_addr`. -/
def checkAddr (a max : Nat) (site : Site) : Except Bug Unit := nvmevAssert (a < max) site

section WritePointers

variable (f : ConvFtl)

/-- `__get_wp`. -/
def ConvFtl.getWp : IoType → WritePointer
  | .userIo => f.wp
  | .gcIo => f.gcWp

def ConvFtl.setWp (wp : WritePointer) : IoType → ConvFtl
  | .userIo => { f with wp }
  | .gcIo => { f with gcWp := wp }

@[simp] theorem getWp_setWp_self (wp : WritePointer) (io : IoType) :
    (f.setWp wp io).getWp io = wp := by
  cases io <;> rfl

theorem getWp_setWp_of_ne (wp : WritePointer) {io io' : IoType} (h : io' ≠ io) :
    (f.setWp wp io).getWp io' = f.getWp io' := by
  cases io <;> cases io' <;> first | rfl | exact absurd rfl h

/-- A write pointer with another line or another page changes nothing else. -/
theorem setWp_eq (wp : WritePointer) (io : IoType) :
    (f.setWp wp io).sp = f.sp ∧ (f.setWp wp io).cp = f.cp ∧ (f.setWp wp io).pages = f.pages ∧
      (f.setWp wp io).blocks = f.blocks ∧ (f.setWp wp io).maptbl = f.maptbl ∧
      (f.setWp wp io).rmap = f.rmap ∧ (f.setWp wp io).lm = f.lm ∧ (f.setWp wp io).wfc = f.wfc ∧
      (f.setWp wp io).issued = f.issued := by
  cases io <;> exact ⟨rfl, rfl, rfl, rfl, rfl, rfl, rfl, rfl, rfl⟩

/-- `prepare_write_pointer`. -/
def prepareWritePointer (ioType : IoType) : Except Bug ConvFtl :=
  match f.lm.getNextFreeLine with
  | none => .error (.assertion .prepareWritePointer)
  | some (line, lm) => pure ({ f with lm }.setWp { curline := line, blk := line } ioType)

/-- `advance_write_pointer` on a line that is written to its end: it goes to the full list or the
queue of victim lines. -/
def retireLine (line : Nat) : Except Bug ConvFtl := do
  let l := f.lm.lines line
  if ulong l.vpc = f.sp.pgsPerLine then
    nvmevAssert (l.ipc = 0) .advanceWritePointer
    pure { f with lm := f.lm.addFull line }
  else
    nvmevAssert (l.vpc < 2 ^ 31 ∧ l.vpc < f.sp.pgsPerLine) .advanceWritePointer
    nvmevAssert (0 < l.ipc ∧ l.ipc < 2 ^ 31) .advanceWritePointer
    pure { f with lm := f.lm.addVictim line }

/-- `advance_write_pointer` from the end of a line on. -/
def nextLine (ioType : IoType) : Except Bug ConvFtl := do
  let wpp := f.getWp ioType
  let f ← retireLine f wpp.curline
  checkAddr wpp.blk f.sp.blksPerPl .advanceWritePointer
  match f.lm.getNextFreeLine with
  | none => .error (.nullPointer .advanceWritePointer)
  | some (line, lm) =>
    checkAddr line f.sp.blksPerPl .advanceWritePointer
    nvmevAssert (wpp.pl = 0) .advanceWritePointer
    pure ({ f with lm }.setWp { curline := line, blk := line, pl := wpp.pl } ioType)

/-- `advance_write_pointer`. -/
def advanceWritePointer (ioType : IoType) : Except Bug ConvFtl := do
  let wpp := f.getWp ioType
  let o := f.sp.pgsPerOneshotpg
  checkAddr wpp.pg f.sp.pgsPerBlk .advanceWritePointer
  if (wpp.pg + 1) % o ≠ 0 then
    pure (f.setWp { wpp with pg := wpp.pg + 1 } ioType)
  else
    let pg := wpp.pg + 1 - o
    checkAddr wpp.ch f.sp.nchs .advanceWritePointer
    if wpp.ch + 1 ≠ f.sp.nchs then
      pure (f.setWp { wpp with pg, ch := wpp.ch + 1 } ioType)
    else
      checkAddr wpp.lun f.sp.lunsPerCh .advanceWritePointer
      if wpp.lun + 1 ≠ f.sp.lunsPerCh then
        pure (f.setWp { wpp with pg, ch := 0, lun := wpp.lun + 1 } ioType)
      else if pg + o ≠ f.sp.pgsPerBlk then
        pure (f.setWp { wpp with pg := pg + o, ch := 0, lun := 0 } ioType)
      else
        nextLine f ioType

/-- `get_new_page`. -/
def getNewPage (ioType : IoType) : Except Bug Ppa := do
  let wp := f.getWp ioType
  let ppa := Ppa.ofFields wp.pg wp.blk wp.pl wp.lun wp.ch
  nvmevAssert (ppa.pl = 0) .getNewPage
  pure ppa

end WritePointers

/-! ## Page and block status -/

section Status

variable (f : ConvFtl) (ppa : Ppa)

/-- The counters and lists of the line of a page that becomes invalid. -/
def invalidateInLine (sp : SsdParams) (lm : LineMgmt) (l : Nat) : Except Bug LineMgmt := do
  let line := lm.lines l
  nvmevAssert (line.ipc < 2 ^ 31 ∧ line.ipc < sp.pgsPerLine) .markPageInvalid
  let wasFullLine := ulong line.vpc == sp.pgsPerLine
  nvmevAssert (wasFullLine → line.ipc = 0) .markPageInvalid
  nvmevAssert (0 < line.vpc ∧ line.vpc < 2 ^ 31 ∧ line.vpc ≤ sp.pgsPerLine) .markPageInvalid
  let lm :=
    if lm.victimLinePq.pos l ≠ 0 then
      let (pri, pq) := lm.victimLinePq.changePriority victimLineCmpPri lm.pri (line.vpc - 1) l
      { lm with
        lines := update lm.lines l { ipc := u32 (line.ipc + 1), vpc := u32 (pri l) }
        victimLinePq := pq }
    else { lm with lines := update lm.lines l { ipc := u32 (line.ipc + 1), vpc := line.vpc - 1 } }
  if wasFullLine then
    let lm := lm.delEntry l
    pure ({ lm with fullLineCnt := dec32 lm.fullLineCnt }.addVictim l)
  else pure lm

/-- `mark_page_invalid`. -/
def markPageInvalid : Except Bug ConvFtl := do
  inBounds f.sp ppa .markPageInvalid
  let pg := f.pages ppa.page
  nvmevAssert (pg.status = .valid) .markPageInvalid
  let blk := f.blocks ppa.block
  nvmevAssert (blk.ipc < f.sp.pgsPerBlk) .markPageInvalid
  nvmevAssert (0 < blk.vpc ∧ blk.vpc ≤ f.sp.pgsPerBlk) .markPageInvalid
  let lm ← invalidateInLine f.sp f.lm ppa.blk
  pure { f with
    pages := update f.pages ppa.page { pg with status := .invalid }
    blocks := update f.blocks ppa.block { blk with ipc := blk.ipc + 1, vpc := blk.vpc - 1 }
    lm }

/-- `mark_page_valid`. -/
def markPageValid : Except Bug ConvFtl := do
  inBounds f.sp ppa .markPageValid
  let pg := f.pages ppa.page
  nvmevAssert (pg.status = .free) .markPageValid
  let blk := f.blocks ppa.block
  nvmevAssert (blk.vpc < f.sp.pgsPerBlk) .markPageValid
  let line := f.lm.lines ppa.blk
  nvmevAssert (line.vpc < 2 ^ 31 ∧ line.vpc < f.sp.pgsPerLine) .markPageValid
  pure { f with
    pages := update f.pages ppa.page { pg with status := .valid }
    blocks := update f.blocks ppa.block { blk with vpc := blk.vpc + 1 }
    lm := { f.lm with
      lines := update f.lm.lines ppa.blk { line with vpc := u32 (line.vpc + 1) } } }

/-- `mark_block_free`. -/
def markBlockFree : Except Bug ConvFtl := do
  inBounds f.sp ppa .markBlockFree
  let pages ← forRange f.sp.pgsPerBlk f.pages fun pages i => do
    let pg := pages { ppa.block with pg := i }
    nvmevAssert (pg.nsecs = f.sp.secsPerPg) .markBlockFree
    pure (update pages { ppa.block with pg := i } { pg with status := .free })
  let blk := f.blocks ppa.block
  nvmevAssert (blk.npgs = f.sp.pgsPerBlk) .markBlockFree
  pure { f with
    pages
    blocks := update f.blocks ppa.block { blk with ipc := 0, vpc := 0, eraseCnt := blk.eraseCnt + 1 } }

end Status

/-- The new page of a logical page, as `conv_write` and `gc_write_page` write it. -/
def programPage (f : ConvFtl) (ioType : IoType) (lpn : Nat) : Except Bug (Ppa × ConvFtl) := do
  let ppa ← getNewPage f ioType
  let f ← setMaptblEnt f lpn ppa
  let f ← setRmapEnt f lpn ppa
  let f ← markPageValid f ppa
  let f ← advanceWritePointer f ioType
  pure (ppa, f)

end Nvmev
