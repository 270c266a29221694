import NvmeVirt.Conv.Ftl

/-!
# Garbage collection of the conventional FTL

`do_gc` and what it calls, and the write credits that trigger it. A victim line is copied flash page
by flash page, over all its blocks; a block is marked free after its last flash page.
-/

namespace Nvmev

open CInt Function Outcome

section

variable (f : ConvFtl)

/-- `ssd_advance_nand` on a command of the garbage collection, if it is to take time. -/
def ConvFtl.issue (cmd : NandCmd) : ConvFtl :=
  if f.cp.enableGcDelay then { f with issued := f.issued ++ [cmd] } else f

/-- `gc_write_page`. -/
def gcWritePage (oldPpa : Ppa) : Except Bug ConvFtl := do
  let lpn ← getRmapEnt f oldPpa
  nvmevAssert (lpn < f.sp.ttPgs) .gcWritePage
  let newPpa ← getNewPage f .gcIo
  let f ← setMaptblEnt f lpn newPpa
  let f ← setRmapEnt f lpn newPpa
  let f ← markPageValid f newPpa
  let f ← advanceWritePointer f .gcIo
  if lastPgInWordline f newPpa then
    pure (f.issue { type := .gcIo, cmd := .write, xferSize := f.sp.pgsz * f.sp.pgsPerOneshotpg
                    stime := 0, ppa := newPpa })
  else pure (f.issue { type := .gcIo, cmd := .nop, stime := 0, ppa := newPpa })

/-- `select_victim_line`. -/
def selectVictimLine (force : Bool) : Option (Nat × ConvFtl) :=
  match f.lm.victimLinePq.peek with
  | none => none
  | some victim =>
    if !force && decide (ulong (f.lm.lines victim).vpc > f.sp.pgsPerLine / 8) then none
    else
      let pq := f.lm.victimLinePq.pop victimLineCmpPri f.lm.pri
      some (victim, { f with lm := { f.lm with
        victimLinePq := { pq with pos := update pq.pos victim 0 }
        victimLineCnt := dec32 f.lm.victimLineCnt } })

/-- The page `i` after `ppa`. -/
def Ppa.addPg (ppa : Ppa) (i : Nat) : Ppa := { ppa with pg := (ppa.pg + i) % 2 ^ 16 }

/-- `clean_one_flashpg`. -/
def cleanOneFlashpg (ppa : Ppa) : Except Bug ConvFtl := do
  let cnt ← forRange f.sp.pgsPerFlashpg 0 fun cnt i => do
    inBounds f.sp (ppa.addPg i) .cleanOneFlashpg
    let pg := f.pages (ppa.addPg i).page
    nvmevAssert (pg.status ≠ .free) .cleanOneFlashpg
    pure (if pg.status = .valid then cnt + 1 else cnt)
  if cnt = 0 then pure f
  else
    let f := f.issue { type := .gcIo, cmd := .read, xferSize := f.sp.pgsz * cnt, stime := 0, ppa }
    forRange f.sp.pgsPerFlashpg f fun f i =>
      if (f.pages (ppa.addPg i).page).status = .valid then gcWritePage f (ppa.addPg i) else pure f

/-- The body of the loop of `do_gc`: one flash page of one block. -/
def cleanOneBlockPg (line flashpg ch lun : Nat) : Except Bug ConvFtl := do
  let ppa := Ppa.ofFields (flashpg * f.sp.pgsPerFlashpg) line 0 lun ch
  let f ← cleanOneFlashpg f ppa
  if flashpg = f.sp.flashpgsPerBlk - 1 then
    let f ← markBlockFree f ppa
    pure (f.issue { type := .gcIo, cmd := .erase, stime := 0, ppa })
  else pure f

/-- `mark_line_free`. -/
def markLineFree (line : Nat) : ConvFtl :=
  { f with lm := { f.lm with
      lines := update f.lm.lines line { ipc := 0, vpc := 0 } }.addFree line }

/-- `do_gc`. Its return value is not used. -/
def doGc (force : Bool) : Except Bug ConvFtl := do
  match selectVictimLine f force with
  | none => pure f
  | some (victim, f) =>
    let f := { f with wfc := { f.wfc with creditsToRefill := (f.lm.lines victim).ipc } }
    let f ← forRange f.sp.flashpgsPerBlk f fun f flashpg =>
      forRange f.sp.nchs f fun f ch =>
        forRange f.sp.lunsPerCh f fun f lun =>
          cleanOneBlockPg f victim flashpg ch lun
    pure (markLineFree f victim)

/-- `foreground_gc`. -/
def foregroundGc : Except Bug ConvFtl := if shouldGcHigh f then doGc f true else pure f

/-- `consume_write_credit`. -/
def consumeWriteCredit : ConvFtl :=
  { f with wfc := { f.wfc with writeCredits := dec32 f.wfc.writeCredits } }

/-- `check_and_refill_write_credit`. -/
def checkAndRefillWriteCredit : Except Bug ConvFtl := do
  if f.wfc.writeCredits = 0 then
    let f ← foregroundGc f
    pure { f with wfc := { f.wfc with
      writeCredits := u32 (f.wfc.writeCredits + f.wfc.creditsToRefill) } }
  else pure f

end

end Nvmev
