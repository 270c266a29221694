import NvmeVirt.Conv.Lines

/-!
# Changes of the status of a page

`mark_page_valid` at a write pointer and `mark_page_invalid` of a valid page keep the accounting. The
first fills the line of the write pointer by one page; the second moves a full line to the queue of
victim lines.

In both, one page changes its status, and the counters of its block and line follow: `setStatus`.
-/

namespace Nvmev

open CInt Function Outcome Tally

section

variable {sp : SsdParams}

theorem Geometry.lines_lt (g : Geometry sp) : sp.blksPerPl < 2 ^ 32 := by
  have := g.fits.blk
  omega

theorem Geometry.lineCount_le (g : Geometry sp) (pages : Ppa → NandPage) (status : PgStatus)
    (l : Nat) : lineCount sp pages status l ≤ sp.pgsPerLine := by
  rw [← g.card_linePages]
  exact tally_le _ _

end

/-- The page `p` gets the status `status`, its block the counters `b`. -/
def setStatus (f : ConvFtl) (p : Ppa) (status : PgStatus) (b : NandBlock) (lm : LineMgmt) : ConvFtl :=
  { f with
    pages := update f.pages p { status, nsecs := (f.pages p).nsecs }
    blocks := update f.blocks p.block b
    lm }

/-- A counter that follows the change of a page from the status `s` to `s'`. -/
def Follows (s s' status : PgStatus) (n n' : Nat) : Prop :=
  n' + (s == status).toNat = n + (s' == status).toNat

variable {f : ConvFtl} {cls cls' : Nat → LineClass} {freed : Nat → Nat → Prop}
  {fill fill' : IoType → Nat} {p : Ppa} {status : PgStatus} {b : NandBlock} {lm : LineMgmt}

theorem NandInv.setStatus (h : NandInv f) (hp : OnChip f.sp p)
    (hnpgs : b.npgs = (f.blocks p.block).npgs)
    (hvpc : Follows (f.pages p).status status .valid (f.blocks p.block).vpc b.vpc)
    (hipc : Follows (f.pages p).status status .invalid (f.blocks p.block).ipc b.ipc) :
    NandInv (setStatus f p status b lm) := by
  have hpage := hp.eq_pageAt
  have hblock := hp.block
  -- The counter of one kind of pages in one block.
  have hcount (s : PgStatus) (cnt : NandBlock → Nat)
      (hcnt : ∀ l < f.sp.blksPerPl, ∀ ch < f.sp.nchs, ∀ lun < f.sp.lunsPerCh,
        cnt (f.blocks (pageAt l ch lun 0)) = blockCount f.sp f.pages s l ch lun)
      (hb : Follows (f.pages p).status status s (cnt (f.blocks p.block)) (cnt b))
      (l : Nat) (hl : l < f.sp.blksPerPl) (ch : Nat) (hch : ch < f.sp.nchs) (lun : Nat)
      (hlun : lun < f.sp.lunsPerCh) :
      cnt (update f.blocks p.block b (pageAt l ch lun 0)) =
        blockCount f.sp (update f.pages p { status, nsecs := (f.pages p).nsecs }) s l ch lun := by
    by_cases he : l = p.blk ∧ ch = p.ch ∧ lun = p.lun
    · obtain ⟨rfl, rfl, rfl⟩ := he
      have hupd := blockCount_update f.pages p.blk p.ch p.lun hp.pg
        { status, nsecs := (f.pages p).nsecs } s
      rw [← hpage] at hupd
      unfold Follows at hb
      rw [hblock] at hb ⊢
      rw [update_self]
      have := hcnt p.blk hp.blk p.ch hp.ch p.lun hp.lun
      simp only [] at hupd
      omega
    · have hne : pageAt l ch lun 0 ≠ p.block := by
        rw [hblock]
        intro heq
        obtain ⟨h1, h2, h3, -⟩ := pageAt_inj heq
        exact he ⟨h1, h2, h3⟩
      rw [update_of_ne hne, hcnt l hl ch hch lun hlun]
      conv => rhs; rw [hpage]
      exact (blockCount_update_ne he _ _).symm
  refine ⟨fun q => ?_, fun q => ?_, hcount .valid (·.vpc) h.vpc hvpc, hcount .invalid (·.ipc) h.ipc hipc⟩
  · by_cases hq : q = p
    · subst hq
      simpa [Nvmev.setStatus] using h.nsecs q
    · simpa [Nvmev.setStatus, hq] using h.nsecs q
  · by_cases hq : q = p.block
    · subst hq
      simpa [Nvmev.setStatus, hnpgs] using h.npgs p.block
    · simpa [Nvmev.setStatus, hq] using h.npgs q

theorem LineCounts.setStatus (h : LineCounts f cls) (hp : OnChip f.sp p)
    (hc : cls p.blk ≠ .collected)
    (hcls : ∀ l, l ≠ p.blk → cls' l = cls l) (hlines : ∀ l, l ≠ p.blk → lm.lines l = f.lm.lines l)
    (hvpc : Follows (f.pages p).status status .valid (f.lm.lines p.blk).vpc (lm.lines p.blk).vpc)
    (hipc : Follows (f.pages p).status status .invalid (f.lm.lines p.blk).ipc (lm.lines p.blk).ipc)
    (hfull : cls' p.blk = .full → (lm.lines p.blk).vpc = f.sp.pgsPerLine)
    (hvictim : cls' p.blk = .victim → 0 < (lm.lines p.blk).ipc) :
    LineCounts (setStatus f p status b lm) cls' := by
  have hcount (s : PgStatus) (cnt : Line → Nat)
      (hcnt : ∀ l < f.sp.blksPerPl, cls l ≠ .collected →
        cnt (f.lm.lines l) = lineCount f.sp f.pages s l)
      (hb : Follows (f.pages p).status status s (cnt (f.lm.lines p.blk)) (cnt (lm.lines p.blk)))
      (l : Nat) (hl : l < f.sp.blksPerPl) (hcl : cls' l ≠ .collected) :
      cnt (lm.lines l) =
        lineCount f.sp (update f.pages p { status, nsecs := (f.pages p).nsecs }) s l := by
    by_cases he : l = p.blk
    · subst he
      have hupd := lineCount_update f.pages p.blk hp.ch hp.lun hp.pg
        { status, nsecs := (f.pages p).nsecs } s
      rw [← hp.eq_pageAt] at hupd
      have := hcnt p.blk hl hc
      unfold Follows at hb
      simp only [] at hupd
      omega
    · rw [hlines l he, hcnt l hl (by rwa [← hcls l he])]
      conv => rhs; rw [hp.eq_pageAt]
      exact (lineCount_update_ne he _ _).symm
  refine ⟨hcount .valid (·.vpc) h.vpc hvpc, hcount .invalid (·.ipc) h.ipc hipc,
    fun l hl hcl => ?_, fun l hl hcl => ?_⟩
  · by_cases he : l = p.blk
    · subst he
      exact hfull hcl
    · rw [hcls l he] at hcl
      simpa [Nvmev.setStatus, hlines l he] using h.full l hl hcl
  · by_cases he : l = p.blk
    · subst he
      exact hvictim hcl
    · rw [hcls l he] at hcl
      simpa [Nvmev.setStatus, hlines l he] using h.victim l hl hcl

theorem FillInv.setStatus (h : FillInv f cls freed fill) (hp : OnChip f.sp p)
    (hself : status = .free ↔ IsFree f.sp freed fill' (cls' p.blk) p.ch p.lun p.pg)
    (hother : ∀ l < f.sp.blksPerPl, ∀ ch < f.sp.nchs, ∀ lun < f.sp.lunsPerCh, ∀ pg < f.sp.pgsPerBlk,
      pageAt l ch lun pg ≠ p → (IsFree f.sp freed fill' (cls' l) ch lun pg ↔
        IsFree f.sp freed fill (cls l) ch lun pg)) :
    FillInv (setStatus f p status b lm) cls' freed fill' := by
  intro l hl ch hch lun hlun pg hpg
  change (update f.pages p { status, nsecs := (f.pages p).nsecs } (pageAt l ch lun pg)).status = .free ↔ _
  by_cases he : pageAt l ch lun pg = p
  · subst he
    rw [update_self]
    exact hself
  · rw [update_of_ne he]
    exact (h l hl ch hch lun hlun pg hpg).trans (hother l hl ch hch lun hlun pg hpg he).symm

/-- The same write pointers, in lines of the same classes. -/
theorem WpInv.congr {f f' : ConvFtl} (h : WpInv f cls) (hsp : f'.sp = f.sp) (hwp : f'.wp = f.wp)
    (hgc : f'.gcWp = f.gcWp) (hcls : ∀ io l, cls' l = .current io ↔ cls l = .current io) :
    WpInv f' cls' := by
  have hget (io : IoType) : f'.getWp io = f.getWp io := by
    cases io
    · exact hwp
    · exact hgc
  refine ⟨fun io => ?_, fun io l hl => ?_⟩
  · rw [hget, hsp]
    exact h.inLine io
  · rw [hget, hcls]
    exact h.current io l (by rwa [hsp] at hl)

section Counts

theorem Accounting.vpc_lt (h : Accounting f cls freed fill) (hp : OnChip f.sp p)
    (hs : (f.pages p).status ≠ .valid) : (f.blocks p.block).vpc < f.sp.pgsPerBlk := by
  rw [hp.block, h.nand.vpc _ hp.blk _ hp.ch _ hp.lun]
  refine lt_of_lt_of_eq (tally_lt (i := p.pg) (Finset.mem_range.mpr hp.pg) ?_)
    (Finset.card_range _)
  simp only [← hp.eq_pageAt]
  simpa using hs

theorem Accounting.lineCount_lt (h : Accounting f cls freed fill) (hp : OnChip f.sp p)
    {status : PgStatus} (hs : (f.pages p).status ≠ status) :
    lineCount f.sp f.pages status p.blk < f.sp.pgsPerLine := by
  rw [← h.geometry.card_linePages]
  refine tally_lt (i := (p.ch, p.lun, p.pg)) (mem_linePages.mpr ⟨hp.ch, hp.lun, hp.pg⟩) ?_
  simp only [← hp.eq_pageAt]
  simpa using hs

end Counts

/-! ## `mark_page_valid` -/

/-- The page at a write pointer. -/
def WritePointer.page (wp : WritePointer) : Ppa := pageAt wp.curline wp.ch wp.lun wp.pg

theorem InLine.place_lt {sp : SsdParams} {wp : WritePointer} (h : InLine sp wp) (g : Geometry sp) :
    wp.place sp < sp.pgsPerLine := g.order_lt h.ch h.lun h.pg

theorem InLine.onChip {sp : SsdParams} {wp : WritePointer} (h : InLine sp wp) : OnChip sp wp.page :=
  pageAt_onChip h.curline h.ch h.lun h.pg

section

variable {sp : SsdParams} {ch lun pg : Nat}

theorem isFree_current (io : IoType) :
    IsFree sp freed fill (.current io) ch lun pg ↔ fill io ≤ order sp ch lun pg := by
  cases io <;> exact Iff.rfl

/-- Only the line of a write pointer depends on how far it is filled. -/
theorem isFree_update {io : IoType} {c : LineClass} (hc : c ≠ .current io) (k : Nat) :
    IsFree sp freed (update fill io k) c ch lun pg ↔ IsFree sp freed fill c ch lun pg := by
  cases io <;> cases c <;> first | exact Iff.rfl | exact absurd rfl hc

end

/-- The state after `mark_page_valid`. -/
def validated (f : ConvFtl) (p : Ppa) : ConvFtl :=
  setStatus f p .valid { f.blocks p.block with vpc := (f.blocks p.block).vpc + 1 }
    { f.lm with
      lines := update f.lm.lines p.blk
        { ipc := (f.lm.lines p.blk).ipc, vpc := (f.lm.lines p.blk).vpc + 1 } }

/-- `mark_page_valid` of a free page. -/
theorem Accounting.markPageValid {S : Prop} (h : Accounting f cls freed fill) (hp : OnChip f.sp p)
    (hs : (f.pages p).status = .free) (hc : cls p.blk ≠ .collected)
    (hS : S → (f.lm.lines p.blk).vpc < 2 ^ 31) :
    Spec S (markPageValid f p) fun f' => f' = validated f p ∧ (f.lm.lines p.blk).vpc < 2 ^ 31 := by
  have hblk := h.vpc_lt hp (by rw [hs]; decide)
  have hline : (f.lm.lines p.blk).vpc < f.sp.pgsPerLine := by
    rw [h.counts.vpc _ hp.blk hc]
    exact h.lineCount_lt hp (by rw [hs]; decide)
  unfold Nvmev.markPageValid nvmevAssert
  simp only [hp.inBounds h.geometry, hp.page, hs, ensure_of, hblk, ok_bind]
  refine .bind (.ensure fun hS' => ⟨hS hS', hline⟩) fun _ hlt => .ret ⟨?_, hlt.1⟩
  rw [u32_of_lt (by omega)]
  rfl

/-- The page at a write pointer becomes valid. -/
theorem Accounting.validated (h : Accounting f cls freed fill) (io : IoType)
    (hplace : (f.getWp io).place f.sp = fill io) :
    (f.pages (f.getWp io).page).status = .free ∧ cls (f.getWp io).curline = .current io ∧
      Accounting (validated f (f.getWp io).page) cls freed (update fill io (fill io + 1)) := by
  have hin := h.wp.inLine io
  have hp := hin.onChip
  have hcls : cls (f.getWp io).curline = .current io := (h.wp.current io _ hin.curline).mpr rfl
  have hfree : (f.pages (f.getWp io).page).status = .free := by
    refine (h.fillInv _ hin.curline _ hin.ch _ hin.lun _ hin.pg).mpr ?_
    rw [hcls, isFree_current]
    exact Nat.le_of_eq hplace.symm
  have hc : cls (f.getWp io).page.blk ≠ .collected := by
    change cls (f.getWp io).curline ≠ _
    rw [hcls]
    cases io <;> decide
  have hv : cls (f.getWp io).page.blk ≠ .victim := by
    change cls (f.getWp io).curline ≠ _
    rw [hcls]
    cases io <;> decide
  refine ⟨hfree, hcls, h.geometry, ?_, ?_, ?_, h.lists.setLine hv _, ?_⟩
  · refine h.nand.setStatus hp rfl ?_ ?_
    · rw [hfree]
      rfl
    · rw [hfree]
      rfl
  · refine h.fillInv.setStatus hp ?_ ?_
    · change PgStatus.valid = .free ↔ IsFree _ _ _ (cls (f.getWp io).curline) _ _ _
      rw [hcls, isFree_current, update_self]
      change PgStatus.valid = .free ↔ fill io + 1 ≤ (f.getWp io).place f.sp
      simp [hplace]
    · intro l hl ch hch lun hlun pg hpg hne
      by_cases hcl : cls l = .current io
      · -- Another page of the same line has another place in the order.
        have hle : l = (f.getWp io).curline := (h.wp.current io l hl).mp hcl
        have hord : order f.sp ch lun pg ≠ fill io := by
          intro he
          rw [← hplace] at he
          obtain ⟨rfl, rfl, rfl⟩ := h.geometry.order_inj hch hlun hin.ch hin.lun he
          exact hne (by rw [hle]; rfl)
        rw [hcl, isFree_current, isFree_current, update_self]
        omega
      · exact isFree_update hcl _
  · have hpc : cls (f.getWp io).page.blk = .current io := hcls
    refine h.counts.setStatus hp hc (fun _ _ => rfl) (fun l hl => update_of_ne hl _ _) ?_ ?_ ?_ ?_
    · rw [hfree]
      simp only [update_self]
      rfl
    · rw [hfree]
      simp only [update_self]
      rfl
    · rw [hpc]
      cases io <;> simp [LineClass.current]
    · rw [hpc]
      cases io <;> simp [LineClass.current]
  · exact h.wp.congr rfl rfl rfl fun _ _ => Iff.rfl

/-! ## `mark_page_invalid` -/

theorem onChip_of_validPpa {sp : SsdParams} (g : Geometry sp) {ppa : Ppa}
    (h : validPpa sp ppa = true) : OnChip sp ppa.page := by
  simp only [validPpa, Bool.and_eq_true, decide_eq_true_eq, g.planes] at h
  obtain ⟨⟨⟨⟨hch, hlun⟩, hpl⟩, hblk⟩, hpg⟩ := h
  exact ⟨hch, hlun, hblk, hpg, by change ppa.pl = 0; omega, rfl⟩

/-- The classes after a page of the line `l` became invalid. -/
def toVictim (cls : Nat → LineClass) (l : Nat) : Nat → LineClass :=
  if cls l = .full then update cls l .victim else cls

theorem toVictim_of_ne {l x : Nat} (h : x ≠ l) : toVictim cls l x = cls x := by
  unfold toVictim
  split
  · exact update_of_ne h _ _
  · rfl

/-- Only a full line changes its class. -/
theorem toVictim_cases (cls : Nat → LineClass) (l x : Nat) :
    toVictim cls l x = cls x ∨ (cls x = .full ∧ toVictim cls l x = .victim) := by
  unfold toVictim
  split
  · by_cases hx : x = l
    · subst hx
      exact .inr ⟨‹_›, update_self ..⟩
    · exact .inl (update_of_ne hx _ _)
  · exact .inl rfl

theorem toVictim_self (h : cls p.blk = .full) : toVictim cls p.blk = update cls p.blk .victim :=
  if_pos h

/-- A class that lines do not leave or reach when a page becomes invalid. -/
theorem toVictim_eq_iff {c : LineClass} (h1 : c ≠ .full) (h2 : c ≠ .victim) (l x : Nat) :
    toVictim cls l x = c ↔ cls x = c := by
  obtain h | ⟨hf, hv⟩ := toVictim_cases cls l x
  · rw [h]
  · rw [hf, hv]
    exact iff_of_false h2.symm h1.symm

/-- A line is full when all of its pages are valid. -/
theorem Ready.full_iff (h : Ready f cls freed fill) {l : Nat} (hl : l < f.sp.blksPerPl)
    (hc : cls l ≠ .collected) : (f.lm.lines l).vpc = f.sp.pgsPerLine ↔ cls l = .full := by
  refine ⟨fun hvpc => ?_, h.acc.counts.full l hl⟩
  rw [h.acc.counts.vpc l hl hc] at hvpc
  have hvalid := h.acc.geometry.lineCount_eq.mp hvpc
  have hwp (io : IoType) : cls l ≠ .current io := by
    intro hcl
    have hin := h.acc.wp.inLine io
    have hle := (h.acc.wp.current io l hl).mp hcl
    have hv := hvalid _ hin.ch _ hin.lun _ hin.pg
    have hfree := (h.acc.validated io (h.place io)).1
    rw [WritePointer.page, ← hle, hv] at hfree
    cases hfree
  cases hcl : cls l with
  | free =>
    -- A page of a free line is free; the page of a write pointer has indices in range.
    have hin := h.acc.wp.inLine .userIo
    have hv := hvalid _ hin.ch _ hin.lun _ hin.pg
    rw [(h.acc.fillInv l hl _ hin.ch _ hin.lun _ hin.pg).mpr (by rw [hcl]; trivial)] at hv
    cases hv
  | full => rfl
  | victim =>
    have hpos := h.acc.counts.victim l hl hcl
    rw [h.acc.counts.ipc l hl hc, h.acc.geometry.lineCount_other hvpc (by decide)] at hpos
    exact absurd hpos (Nat.lt_irrefl 0)
  | user => exact absurd hcl (hwp .userIo)
  | gc => exact absurd hcl (hwp .gcIo)
  | collected => exact absurd hcl hc

section Invalidate

variable (h : Ready f cls freed fill) (hp : OnChip f.sp p) (hs : (f.pages p).status = .valid)
  (hc : cls p.blk ≠ .collected)

include h hp hs hc

/-- The counters of the line of a valid page. -/
theorem Ready.line_counters :
    (f.lm.lines p.blk).ipc < f.sp.pgsPerLine ∧ 0 < (f.lm.lines p.blk).vpc ∧
      (f.lm.lines p.blk).vpc ≤ f.sp.pgsPerLine ∧
      (cls p.blk = .full → (f.lm.lines p.blk).ipc = 0) := by
  have hipc := h.acc.counts.ipc _ hp.blk hc
  have hvpc := h.acc.counts.vpc _ hp.blk hc
  refine ⟨?_, ?_, ?_, fun hfull => ?_⟩
  · rw [hipc]
    exact h.acc.lineCount_lt hp (by rw [hs]; decide)
  · rw [hvpc]
    refine tally_pos (i := (p.ch, p.lun, p.pg)) (mem_linePages.mpr ⟨hp.ch, hp.lun, hp.pg⟩) ?_
    simp only [← hp.eq_pageAt, hs]
    rfl
  · rw [hvpc]
    exact h.acc.geometry.lineCount_le _ _ _
  · have hall := h.acc.counts.full _ hp.blk hfull
    rw [hvpc] at hall
    rw [hipc, h.acc.geometry.lineCount_other hall (by decide)]

/-- The line of a page that becomes invalid. -/
theorem Ready.invalidateInLine {S : Prop} (hS : S → f.sp.pgsPerLine < 2 ^ 31) :
    Spec S (invalidateInLine f.sp f.lm p.blk) fun lm =>
      lm.lines = update f.lm.lines p.blk
        { ipc := (f.lm.lines p.blk).ipc + 1, vpc := (f.lm.lines p.blk).vpc - 1 } ∧
      LineLists f.sp.blksPerPl lm (toVictim cls p.blk) ∧
      lm.freeLineList = f.lm.freeLineList := by
  obtain ⟨hipc, hpos, hle, hzero⟩ := h.line_counters hp hs hc
  have hfull := h.full_iff hp.blk hc
  have hlists := h.acc.lists
  have hn := h.acc.geometry.lines_lt
  unfold Nvmev.invalidateInLine nvmevAssert
  dsimp only
  refine .bind (.ensure fun hS' => ⟨by have := hS hS'; omega, hipc⟩) fun _ hi31 => ?_
  refine .bind (.ensure fun hS' hb => ?_) fun _ _ => ?_
  · have := hS hS'
    rw [beq_iff_eq, ulong_of_lt (by omega)] at hb
    exact hzero (hfull.mp hb)
  refine .bind (.ensure fun hS' => ⟨hpos, by have := hS hS'; omega, hle⟩) fun _ hv31 => ?_
  have hu : u32 ((f.lm.lines p.blk).ipc + 1) = (f.lm.lines p.blk).ipc + 1 := u32_of_lt (by omega)
  have hul : ulong (f.lm.lines p.blk).vpc = (f.lm.lines p.blk).vpc := ulong_of_lt hv31.2.1
  simp only [hu, hul, beq_iff_eq, hfull]
  by_cases hvictim : f.lm.victimLinePq.pos p.blk ≠ 0
  · -- In the queue: its place there follows its number of valid pages.
    have hcl := ((hlists.mem_victim _).mp hvictim).2
    have hpri := (hlists.queue.changePriority victimLineCmpPri f.lm.pri hvictim
      ((f.lm.lines p.blk).vpc - 1)).1
    have hlt : (f.lm.lines p.blk).vpc - 1 < f.lm.pri p.blk := by
      rw [LineMgmt.pri, hul]
      omega
    rw [if_pos hvictim, if_neg (by rw [hcl]; decide)]
    refine .ret ⟨?_, ?_, ?_⟩
    · simp only [hpri, update_self]
      rw [u32_of_lt (by omega)]
    · rw [toVictim, if_neg (by rw [hcl]; decide)]
      refine hlists.changeVictim hvictim hlt ?_
      simp only [hpri, update_self]
      exact u32_of_lt (by omega)
    · rfl
  · rw [if_neg hvictim]
    by_cases hcl : cls p.blk = .full
    · rw [toVictim_self hcl]
      have := (hlists.setLine (by rw [hcl]; decide)
        { ipc := (f.lm.lines p.blk).ipc + 1, vpc := (f.lm.lines p.blk).vpc - 1 }).fullToVictim hn
        hp.blk hcl (by dsimp only; rw [update_self]; dsimp only; omega)
      rw [if_pos hcl]
      exact .ret ⟨rfl, this.1, this.2⟩
    · rw [toVictim, if_neg hcl, if_neg hcl]
      have hv : cls p.blk ≠ .victim := fun hv => hvictim ((hlists.mem_victim _).mpr ⟨hp.blk, hv⟩)
      exact .ret ⟨rfl, hlists.setLine hv _, rfl⟩

end Invalidate

/-- A valid page becomes invalid. -/
theorem Ready.invalidated (h : Ready f cls freed fill) (hp : OnChip f.sp p)
    (hs : (f.pages p).status = .valid) (hc : cls p.blk ≠ .collected)
    (hlines : lm.lines = update f.lm.lines p.blk
      { ipc := (f.lm.lines p.blk).ipc + 1, vpc := (f.lm.lines p.blk).vpc - 1 })
    (hlists : LineLists f.sp.blksPerPl lm (toVictim cls p.blk))
    (hb : b = { f.blocks p.block with
      ipc := (f.blocks p.block).ipc + 1, vpc := (f.blocks p.block).vpc - 1 })
    (hvpc : 0 < (f.blocks p.block).vpc) :
    Ready (setStatus f p .invalid b lm) (toVictim cls p.blk) freed fill := by
  subst hb
  have hpos := (h.line_counters hp hs hc).2.1
  have hnot : cls p.blk ≠ .free := by
    intro hcl
    have := (h.acc.fillInv _ hp.blk _ hp.ch _ hp.lun _ hp.pg).mpr (by rw [hcl]; trivial)
    rw [← hp.eq_pageAt, hs] at this
    cases this
  have hfree (l ch lun pg : Nat) : IsFree f.sp freed fill (toVictim cls p.blk l) ch lun pg ↔
      IsFree f.sp freed fill (cls l) ch lun pg := by
    obtain he | ⟨hfull, hvictim⟩ := toVictim_cases cls p.blk l
    · rw [he]
    · rw [hfull, hvictim]
      exact Iff.rfl
  have hself : lm.lines p.blk =
      { ipc := (f.lm.lines p.blk).ipc + 1, vpc := (f.lm.lines p.blk).vpc - 1 } := by
    rw [hlines, update_self]
  refine ⟨⟨h.acc.geometry, ?_, ?_, ?_, hlists, ?_⟩, ?_⟩
  · refine h.acc.nand.setStatus hp rfl ?_ ?_
    · rw [hs]
      change (f.blocks p.block).vpc - 1 + 1 = (f.blocks p.block).vpc + 0
      omega
    · rw [hs]
      rfl
  · refine h.acc.fillInv.setStatus hp ?_ fun l _ ch _ lun _ pg _ _ => hfree l ch lun pg
    rw [hfree, ← h.acc.fillInv _ hp.blk _ hp.ch _ hp.lun _ hp.pg, ← hp.eq_pageAt, hs]
    decide
  · refine h.acc.counts.setStatus hp hc (fun l hl => toVictim_of_ne hl)
      (fun l hl => by rw [hlines, update_of_ne hl]) ?_ ?_ ?_ ?_
    · rw [hs, hself]
      change (f.lm.lines p.blk).vpc - 1 + 1 = (f.lm.lines p.blk).vpc + 0
      omega
    · rw [hs, hself]
      rfl
    · intro hfull
      obtain he | ⟨-, hvictim⟩ := toVictim_cases cls p.blk p.blk
      · rw [he] at hfull
        rw [toVictim_self hfull, update_self] at he
        rw [hfull] at he
        cases he
      · rw [hvictim] at hfull
        cases hfull
    · intro _
      rw [hself]
      exact Nat.succ_pos _
  · refine h.acc.wp.congr rfl rfl rfl fun io l => ?_
    cases io
    · exact toVictim_eq_iff (by decide) (by decide) _ _
    · exact toVictim_eq_iff (by decide) (by decide) _ _
  · rintro (_ | _)
    · exact h.place .userIo
    · exact h.place .gcIo

/-- `mark_page_invalid`. -/
theorem Ready.markPageInvalid {S : Prop} (h : Ready f cls freed fill) {ppa : Ppa}
    (hc : ppa.blk < f.sp.blksPerPl → cls ppa.blk ≠ .collected)
    (hsmall : S → f.sp.pgsPerLine < 2 ^ 31)
    (hS : S → validPpa f.sp ppa = true ∧ (f.pages ppa.page).status = .valid) :
    Spec S (markPageInvalid f ppa) fun f' =>
      (OnChip f.sp ppa.page ∧ (f.pages ppa.page).status = .valid) ∧
      ∃ b lm, f' = setStatus f ppa.page .invalid b lm ∧ lm.freeLineList = f.lm.freeLineList ∧
        Ready f' (toVictim cls ppa.blk) freed fill := by
  unfold Nvmev.markPageInvalid nvmevAssert
  refine .bind (.ensure fun hs => (hS hs).1) fun _ hvalid => ?_
  refine .bind (.ensure fun hs => (hS hs).2) fun _ hs => ?_
  have hp := onChip_of_validPpa h.acc.geometry hvalid
  have hc : cls ppa.page.blk ≠ .collected := hc hp.blk
  have hblock : ppa.page.block = ppa.block := rfl
  have hvpc := h.acc.nand.vpc _ hp.blk _ hp.ch _ hp.lun
  have hipc := h.acc.nand.ipc _ hp.blk _ hp.ch _ hp.lun
  rw [← hp.block, hblock] at hvpc hipc
  have hpos : 0 < (f.blocks ppa.block).vpc := by
    rw [hvpc]
    refine tally_pos (Finset.mem_range.mpr hp.pg) ?_
    rw [← hp.eq_pageAt, hs]
    rfl
  have hle : (f.blocks ppa.block).vpc ≤ f.sp.pgsPerBlk := by
    rw [hvpc]
    exact le_of_le_of_eq (tally_le _ _) (Finset.card_range _)
  have hlt : (f.blocks ppa.block).ipc < f.sp.pgsPerBlk := by
    rw [hipc]
    refine lt_of_lt_of_eq (tally_lt (Finset.mem_range.mpr hp.pg) ?_) (Finset.card_range _)
    rw [← hp.eq_pageAt, hs]
    rfl
  simp only [ensure_of, hlt, hpos, hle, and_self, ok_bind]
  refine (h.invalidateInLine hp hs hc hsmall).bind fun lm hlm => ?_
  obtain ⟨hlines, hlists, hfree⟩ := hlm
  exact .ret ⟨⟨hp, hs⟩, _, lm, rfl, hfree, h.invalidated hp hs hc hlines hlists rfl hpos⟩

end Nvmev
