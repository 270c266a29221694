import NvmeVirt.Conv.Geometry
import NvmeVirt.Conv.Heap
import NvmeVirt.Lib.Tally

/-!
# What the conventional FTL keeps

The invariant has six parts, each over the part of the state that it reads.

* `NandInv`: the counters of the blocks count their pages.
* `FillInv`: which pages are free. A line is written in the `order` of the pages; `fill` is the
  number of pages written of the line of a write pointer.
* `LineCounts`: the counters of the lines count their pages.
* `LineLists`: the two lists and the queue hold the lines that the `LineClass` of each says, and the
  queue is ordered by the counters of valid pages.
* `WpInv`: the write pointers point into their lines.
* `MapInv`: the mapping table, the reverse map and the status of the pages agree.

In the middle of a garbage collection a line is `collected`: the blocks `freed` of it are free, and
the pages that are `stale` are valid but mapped no more. In the middle of a write of a page its
logical page is `open`: nothing is said of its entry in the mapping table.
-/

namespace Nvmev

open CInt Function Outcome Tally

/-- Where a line is. -/
inductive LineClass where
  | free | full | victim | user | gc
  /-- Out of the queue, in a garbage collection. -/
  | collected
  deriving DecidableEq

/-- The class of the line of a write pointer. -/
def LineClass.current : IoType → LineClass
  | .userIo => .user
  | .gcIo => .gc

/-- The other classes lose a line that goes to class `d`. -/
theorem update_class {cls : Nat → LineClass} {l x : Nat} {c d : LineClass} (hd : d ≠ c) :
    update cls l d x = c ↔ x ≠ l ∧ cls x = c := by
  by_cases hx : x = l
  · subst hx
    rw [update_self]
    exact iff_of_false hd fun h => h.1 rfl
  · rw [update_of_ne hx]
    exact (and_iff_right hx).symm

/-- A class that it neither leaves nor joins is the same. -/
theorem update_class_of_ne {cls : Nat → LineClass} {l x : Nat} {c d : LineClass} (hd : d ≠ c)
    (hc : cls l ≠ c) : update cls l d x = c ↔ cls x = c := by
  refine (update_class hd).trans (and_iff_right_of_imp ?_)
  rintro hx rfl
  exact hc hx

/-! ## Counting pages -/

/-- The pages of a line: channel, LUN and page of the block. -/
def linePages (sp : SsdParams) : Finset (Nat × Nat × Nat) :=
  Finset.range sp.nchs ×ˢ Finset.range sp.lunsPerCh ×ˢ Finset.range sp.pgsPerBlk

/-- The pages of a line with a status. -/
def lineCount (sp : SsdParams) (pages : Ppa → NandPage) (status : PgStatus) (l : Nat) : Nat :=
  tally (linePages sp) fun i => (pages (pageAt l i.1 i.2.1 i.2.2)).status == status

/-- The pages of a block with a status. -/
def blockCount (sp : SsdParams) (pages : Ppa → NandPage) (status : PgStatus) (l ch lun : Nat) : Nat :=
  tally (Finset.range sp.pgsPerBlk) fun pg => (pages (pageAt l ch lun pg)).status == status

section

variable {sp : SsdParams} {pages : Ppa → NandPage} {l ch lun pg : Nat} {status : PgStatus}

theorem mem_linePages {i : Nat × Nat × Nat} :
    i ∈ linePages sp ↔ i.1 < sp.nchs ∧ i.2.1 < sp.lunsPerCh ∧ i.2.2 < sp.pgsPerBlk := by
  simp [linePages]

theorem Geometry.card_linePages (g : Geometry sp) : (linePages sp).card = sp.pgsPerLine := by
  rw [g.pgsPerLine]
  simp only [linePages, Finset.card_product, Finset.card_range]
  ring

theorem lineCount_eq_zero : lineCount sp pages status l = 0 ↔ ∀ ch < sp.nchs, ∀ lun < sp.lunsPerCh,
    ∀ pg < sp.pgsPerBlk, (pages (pageAt l ch lun pg)).status ≠ status := by
  refine tally_eq_zero.trans ⟨fun h ch hch lun hlun pg hpg => ?_, fun h i hi => ?_⟩
  · exact beq_eq_false_iff_ne.mp (h (ch, lun, pg) (mem_linePages.mpr ⟨hch, hlun, hpg⟩))
  · obtain ⟨hch, hlun, hpg⟩ := mem_linePages.mp hi
    exact beq_false_of_ne (h _ hch _ hlun _ hpg)

theorem Geometry.lineCount_eq (g : Geometry sp) : lineCount sp pages status l = sp.pgsPerLine ↔
    ∀ ch < sp.nchs, ∀ lun < sp.lunsPerCh, ∀ pg < sp.pgsPerBlk,
      (pages (pageAt l ch lun pg)).status = status := by
  rw [← g.card_linePages]
  refine tally_eq_card.trans ⟨fun h ch hch lun hlun pg hpg => ?_, fun h i hi => ?_⟩
  · exact beq_iff_eq.mp (h (ch, lun, pg) (mem_linePages.mpr ⟨hch, hlun, hpg⟩))
  · obtain ⟨hch, hlun, hpg⟩ := mem_linePages.mp hi
    exact beq_iff_eq.mpr (h _ hch _ hlun _ hpg)

/-- Where all pages have one status, none has another. -/
theorem Geometry.lineCount_other (g : Geometry sp) {s : PgStatus}
    (h : lineCount sp pages s l = sp.pgsPerLine) (hs : s ≠ status) : lineCount sp pages status l = 0 :=
  lineCount_eq_zero.mpr fun ch hch lun hlun pg hpg =>
    (g.lineCount_eq.mp h ch hch lun hlun pg hpg).trans_ne hs

variable (pages l) in
theorem lineCount_update (hch : ch < sp.nchs) (hlun : lun < sp.lunsPerCh) (hpg : pg < sp.pgsPerBlk)
    (v : NandPage) (status : PgStatus) :
    lineCount sp (update pages (pageAt l ch lun pg) v) status l +
        ((pages (pageAt l ch lun pg)).status == status).toNat =
      lineCount sp pages status l + (v.status == status).toNat :=
  tally_update_comp (linePages sp) pages (fun p => p.status == status)
    (g := fun i => pageAt l i.1 i.2.1 i.2.2) (a := (ch, lun, pg))
    (mem_linePages.mpr ⟨hch, hlun, hpg⟩) (fun i hi => by
      obtain ⟨-, h1, h2, h3⟩ := pageAt_inj hi
      exact Prod.ext h1 (Prod.ext h2 h3)) v

theorem lineCount_update_ne {l' : Nat} (h : l' ≠ l) (v : NandPage) (status : PgStatus) :
    lineCount sp (update pages (pageAt l ch lun pg) v) status l' = lineCount sp pages status l' := by
  refine tally_congr fun i _ => ?_
  rw [update_of_ne]
  intro he
  exact h (pageAt_inj he).1

variable (pages l ch lun) in
theorem blockCount_update (hpg : pg < sp.pgsPerBlk) (v : NandPage) (status : PgStatus) :
    blockCount sp (update pages (pageAt l ch lun pg) v) status l ch lun +
        ((pages (pageAt l ch lun pg)).status == status).toNat =
      blockCount sp pages status l ch lun + (v.status == status).toNat :=
  tally_update_comp (Finset.range sp.pgsPerBlk) pages (fun p => p.status == status)
    (g := fun i => pageAt l ch lun i) (a := pg) (Finset.mem_range.mpr hpg)
    (fun _ hi => (pageAt_inj hi).2.2.2) v

theorem blockCount_update_ne {l' ch' lun' : Nat} (h : ¬ (l' = l ∧ ch' = ch ∧ lun' = lun))
    (v : NandPage) (status : PgStatus) :
    blockCount sp (update pages (pageAt l ch lun pg) v) status l' ch' lun' =
      blockCount sp pages status l' ch' lun' := by
  refine tally_congr fun i _ => ?_
  rw [update_of_ne]
  intro he
  obtain ⟨h1, h2, h3, -⟩ := pageAt_inj he
  exact h ⟨h1, h2, h3⟩

/-- A line without free pages. -/
theorem Geometry.lineCount_add (g : Geometry sp)
    (h : ∀ ch < sp.nchs, ∀ lun < sp.lunsPerCh, ∀ pg < sp.pgsPerBlk,
      (pages (pageAt l ch lun pg)).status ≠ .free) :
    lineCount sp pages .valid l + lineCount sp pages .invalid l = sp.pgsPerLine := by
  rw [← g.card_linePages, ← tally_add_not]
  refine congrArg₂ (· + ·) rfl (tally_congr fun i hi => ?_)
  obtain ⟨h1, h2, h3⟩ := mem_linePages.mp hi
  have hne := h i.1 h1 i.2.1 h2 i.2.2 h3
  cases hs : (pages (pageAt l i.1 i.2.1 i.2.2)).status <;> simp_all

end

/-! ## The parts of the invariant -/

/-- The counters of the blocks. -/
structure NandInv (f : ConvFtl) : Prop where
  nsecs : ∀ p, (f.pages p).nsecs = f.sp.secsPerPg
  npgs : ∀ b, (f.blocks b).npgs = f.sp.pgsPerBlk
  vpc : ∀ l < f.sp.blksPerPl, ∀ ch < f.sp.nchs, ∀ lun < f.sp.lunsPerCh,
    (f.blocks (pageAt l ch lun 0)).vpc = blockCount f.sp f.pages .valid l ch lun
  ipc : ∀ l < f.sp.blksPerPl, ∀ ch < f.sp.nchs, ∀ lun < f.sp.lunsPerCh,
    (f.blocks (pageAt l ch lun 0)).ipc = blockCount f.sp f.pages .invalid l ch lun

/-- Whether a page of a line of class `c` is free. -/
def IsFree (sp : SsdParams) (freed : Nat → Nat → Prop) (fill : IoType → Nat) (c : LineClass)
    (ch lun pg : Nat) : Prop :=
  match c with
  | .free => True
  | .full | .victim => False
  | .user => fill .userIo ≤ order sp ch lun pg
  | .gc => fill .gcIo ≤ order sp ch lun pg
  | .collected => freed ch lun

/-- The free pages. -/
def FillInv (f : ConvFtl) (cls : Nat → LineClass) (freed : Nat → Nat → Prop) (fill : IoType → Nat) :
    Prop :=
  ∀ l < f.sp.blksPerPl, ∀ ch < f.sp.nchs, ∀ lun < f.sp.lunsPerCh, ∀ pg < f.sp.pgsPerBlk,
    (f.pages (pageAt l ch lun pg)).status = .free ↔ IsFree f.sp freed fill (cls l) ch lun pg

/-- The counters of the lines. -/
structure LineCounts (f : ConvFtl) (cls : Nat → LineClass) : Prop where
  vpc : ∀ l < f.sp.blksPerPl, cls l ≠ .collected →
    (f.lm.lines l).vpc = lineCount f.sp f.pages .valid l
  ipc : ∀ l < f.sp.blksPerPl, cls l ≠ .collected →
    (f.lm.lines l).ipc = lineCount f.sp f.pages .invalid l
  full : ∀ l < f.sp.blksPerPl, cls l = .full → (f.lm.lines l).vpc = f.sp.pgsPerLine
  victim : ∀ l < f.sp.blksPerPl, cls l = .victim → 0 < (f.lm.lines l).ipc

/-- The lists and the queue of `n` lines. -/
structure LineLists (n : Nat) (lm : LineMgmt) (cls : Nat → LineClass) : Prop where
  freeNodup : lm.freeLineList.Nodup
  mem_free : ∀ l, l ∈ lm.freeLineList ↔ l < n ∧ cls l = .free
  freeLineCnt : lm.freeLineCnt = lm.freeLineList.length
  fullNodup : lm.fullLineList.Nodup
  mem_full : ∀ l, l ∈ lm.fullLineList ↔ l < n ∧ cls l = .full
  fullLineCnt : lm.fullLineCnt = lm.fullLineList.length
  queue : lm.victimLinePq.Wf
  mem_victim : ∀ l, lm.victimLinePq.pos l ≠ 0 ↔ l < n ∧ cls l = .victim
  victimLineCnt : lm.victimLineCnt + 1 = lm.victimLinePq.size
  ordered : lm.victimLinePq.Ordered lm.pri
  small : ∀ l, lm.victimLinePq.pos l ≠ 0 → (lm.lines l).vpc < 2 ^ 31

/-- A write pointer points into a line. -/
structure InLine (sp : SsdParams) (wp : WritePointer) : Prop where
  curline : wp.curline < sp.blksPerPl
  blk : wp.blk = wp.curline
  pl : wp.pl = 0
  ch : wp.ch < sp.nchs
  lun : wp.lun < sp.lunsPerCh
  pg : wp.pg < sp.pgsPerBlk

/-- The write pointers. -/
structure WpInv (f : ConvFtl) (cls : Nat → LineClass) : Prop where
  inLine : ∀ io, InLine f.sp (f.getWp io)
  current : ∀ io, ∀ l < f.sp.blksPerPl, cls l = .current io ↔ l = (f.getWp io).curline

/-- The accounting of pages, blocks and lines. -/
structure Accounting (f : ConvFtl) (cls : Nat → LineClass) (freed : Nat → Nat → Prop)
    (fill : IoType → Nat) : Prop where
  geometry : Geometry f.sp
  nand : NandInv f
  fillInv : FillInv f cls freed fill
  counts : LineCounts f cls
  lists : LineLists f.sp.blksPerPl f.lm cls
  wp : WpInv f cls

/-- The place of a write pointer in the order of writing. -/
def WritePointer.place (sp : SsdParams) (wp : WritePointer) : Nat := order sp wp.ch wp.lun wp.pg

/-- The accounting with both write pointers at the first free page of their lines. -/
structure Ready (f : ConvFtl) (cls : Nat → LineClass) (freed : Nat → Nat → Prop)
    (fill : IoType → Nat) : Prop where
  acc : Accounting f cls freed fill
  place : ∀ io, (f.getWp io).place f.sp = fill io

/-- The maps of the logical pages below `m`: those of `written` are mapped. `stale` pages are valid
but not mapped; of the logical pages `openLpn` nothing is said. -/
structure MapInv (f : ConvFtl) (m : Nat) (written : Nat → Prop) (stale : Ppa → Prop)
    (openLpn : Nat → Prop) : Prop where
  le_ttPgs : m ≤ f.sp.ttPgs
  mapped : ∀ lpn < m, ¬ openLpn lpn → (mappedPpa (f.maptbl lpn) = true ↔ written lpn)
  page : ∀ lpn < m, ¬ openLpn lpn → mappedPpa (f.maptbl lpn) = true →
    OnChip f.sp (f.maptbl lpn) ∧ (f.pages (f.maptbl lpn)).status = .valid ∧
      ¬ stale (f.maptbl lpn) ∧ f.rmap (pgidx f.sp (f.maptbl lpn)) = lpn
  lpn : ∀ p, OnChip f.sp p → (f.pages p).status = .valid → ¬ stale p →
    f.rmap (pgidx f.sp p) < m ∧ ¬ openLpn (f.rmap (pgidx f.sp p)) ∧
      f.maptbl (f.rmap (pgidx f.sp p)) = p

section Congr

variable {f f' : ConvFtl} {cls : Nat → LineClass} {freed : Nat → Nat → Prop} {fill : IoType → Nat}

theorem NandInv.congr (h : NandInv f) (hsp : f'.sp = f.sp) (hpages : f'.pages = f.pages)
    (hblocks : f'.blocks = f.blocks) : NandInv f' := by
  obtain ⟨h1, h2, h3, h4⟩ := h
  rw [← hsp, ← hpages] at h1
  rw [← hsp, ← hblocks] at h2
  rw [← hsp, ← hpages, ← hblocks] at h3 h4
  exact ⟨h1, h2, h3, h4⟩

theorem FillInv.congr (h : FillInv f cls freed fill) (hsp : f'.sp = f.sp)
    (hpages : f'.pages = f.pages) : FillInv f' cls freed fill := by
  unfold FillInv at h ⊢
  rwa [hsp, hpages]

theorem LineCounts.congr (h : LineCounts f cls) (hsp : f'.sp = f.sp) (hpages : f'.pages = f.pages)
    (hlines : f'.lm.lines = f.lm.lines) : LineCounts f' cls := by
  obtain ⟨h1, h2, h3, h4⟩ := h
  rw [← hsp, ← hpages, ← hlines] at h1 h2
  rw [← hsp, ← hlines] at h3 h4
  exact ⟨h1, h2, h3, h4⟩

end Congr

/-- The accounting does not read the maps and the credits. -/
theorem Accounting.congr {f f' : ConvFtl} {cls : Nat → LineClass} {freed : Nat → Nat → Prop}
    {fill : IoType → Nat} (h : Accounting f cls freed fill) (hsp : f'.sp = f.sp)
    (hpages : f'.pages = f.pages) (hblocks : f'.blocks = f.blocks) (hlm : f'.lm = f.lm)
    (hwp : f'.wp = f.wp) (hgc : f'.gcWp = f.gcWp) : Accounting f' cls freed fill := by
  obtain ⟨sp, cp, pages, blocks, maptbl, rmap, wp, gcWp, lm, wfc, issued⟩ := f
  obtain ⟨sp', cp', pages', blocks', maptbl', rmap', wp', gcWp', lm', wfc', issued'⟩ := f'
  subst hsp hpages hblocks hlm hwp hgc
  refine ⟨h.geometry, ⟨h.nand.nsecs, h.nand.npgs, h.nand.vpc, h.nand.ipc⟩, h.fillInv,
    ⟨h.counts.vpc, h.counts.ipc, h.counts.full, h.counts.victim⟩, h.lists, ⟨?_, ?_⟩⟩
  · rintro (_ | _)
    · exact h.wp.inLine .userIo
    · exact h.wp.inLine .gcIo
  · rintro (_ | _)
    · exact h.wp.current .userIo
    · exact h.wp.current .gcIo

theorem Ready.congr {f f' : ConvFtl} {cls : Nat → LineClass} {freed : Nat → Nat → Prop}
    {fill : IoType → Nat} (h : Ready f cls freed fill) (hsp : f'.sp = f.sp)
    (hpages : f'.pages = f.pages) (hblocks : f'.blocks = f.blocks) (hlm : f'.lm = f.lm)
    (hwp : f'.wp = f.wp) (hgc : f'.gcWp = f.gcWp) : Ready f' cls freed fill := by
  refine ⟨h.acc.congr hsp hpages hblocks hlm hwp hgc, ?_⟩
  rintro (_ | _)
  · rw [hsp, ← h.place .userIo]
    exact congrArg _ hwp
  · rw [hsp, ← h.place .gcIo]
    exact congrArg _ hgc

theorem MapInv.congr {f f' : ConvFtl} {m : Nat} {written openLpn : Nat → Prop} {stale : Ppa → Prop}
    (h : MapInv f m written stale openLpn) (hsp : f'.sp = f.sp) (hpages : f'.pages = f.pages)
    (hmap : f'.maptbl = f.maptbl) (hrmap : f'.rmap = f.rmap) :
    MapInv f' m written stale openLpn := by
  obtain ⟨h1, h2, h3, h4⟩ := h
  refine ⟨by rwa [hsp], ?_, ?_, ?_⟩
  · rwa [hmap]
  · rwa [hmap, hsp, hpages, hrmap]
  · rwa [hmap, hsp, hpages, hrmap]

end Nvmev
