import NvmeVirt.Conv.Greedy
import NvmeVirt.Conv.LongLine
import NvmeVirt.Conv.Queued

/-!
# A garbage collection is transparent

What `do_gc` does to the state, beyond the invariants it keeps: the logical pages of the victim line
get pages of the GC stream, nothing else is written, and the victim line is free. `Moving` says how far
it is after `k` pages of the line and `b` of its blocks, `Stream` where the GC write pointer is after
`n` copies.

The `int` counters decide whether the collection comes to its end: `CountersFit`.
-/

namespace Nvmev

open CInt Function Outcome Tally

/-! ## The statement -/

/-- The page of the logical page `lpn` is in the line `v`. -/
structure MappedInto (f : ConvFtl) (m v lpn : Nat) : Prop where
  lt : lpn < m
  mapped : mappedPpa (f.maptbl lpn) = true
  blk : (f.maptbl lpn).blk = v

/-- From `f` to `f'` the free pages `pages` are written, and no other page outside the line `v`. -/
structure WritesPages (f : ConvFtl) (v : Nat) (pages : Finset Ppa) (f' : ConvFtl) : Prop where
  written : ∀ p ∈ pages, OnChip f.sp p ∧ p.blk ≠ v ∧ (f.pages p).status = .free ∧
    (f'.pages p).status = .valid
  others : ∀ p, OnChip f.sp p → p.blk ≠ v → p ∉ pages → f'.pages p = f.pages p

/-- The current line of the GC stream, or the line it takes next. -/
def InGcStream (f : ConvFtl) (p : Ppa) : Prop :=
  p.blk = f.gcWp.curline ∨ f.lm.freeLineList.head? = some p.blk

/-- The collection of the line `v`, from `f` to `f'`. -/
structure Transparent (m : Nat) (f : ConvFtl) (v : Nat) (f' : ConvFtl) : Prop where
  kept : ∀ lpn, ¬ MappedInto f m v lpn → f'.maptbl lpn = f.maptbl lpn
  moved : ∃ pages : Finset Ppa, pages.card = (f.lm.lines v).vpc ∧ WritesPages f v pages f' ∧
    (∀ p ∈ pages, InGcStream f p) ∧ ∀ lpn, MappedInto f m v lpn → f'.maptbl lpn ∈ pages
  distinct : ∀ lpn lpn', MappedInto f m v lpn → MappedInto f m v lpn' →
    f'.maptbl lpn = f'.maptbl lpn' → lpn = lpn'
  wp : f'.wp = f.wp
  free : ∀ p, OnChip f.sp p → p.blk = v → (f'.pages p).status = .free
  eraseCnt : ∀ ch < f.sp.nchs, ∀ lun < f.sp.lunsPerCh, (f'.blocks (pageAt v ch lun 0)).eraseCnt.toInt =
    (f.blocks (pageAt v ch lun 0)).eraseCnt.toInt + 1
  freeLines : ∃ lines, f'.lm.freeLineList = lines ++ [v] ∧ (f.lm.freeLineList = lines ∨
    f.lm.freeLineList = f'.gcWp.curline :: lines)
  credits : f'.wfc.creditsToRefill = (f.lm.lines v).ipc

/-- The GC stream takes `n` pages more: `vpc` of its line stays an `int` until the last of them or the
end of the line, where both counters of the line are read. -/
def GcLineFits (f : ConvFtl) (n : Nat) : Prop :=
  let line := f.lm.lines f.gcWp.curline
  let left := f.sp.pgsPerLine - f.gcWp.place f.sp
  if n < left then n = 0 ∨ line.vpc + n ≤ 2 ^ 31 else line.vpc + left < 2 ^ 31 ∧ line.ipc < 2 ^ 31

/-- The `int` counters that the collection of the line `v` counts up do not overflow. -/
structure CountersFit (f : ConvFtl) (v : Nat) : Prop where
  line : GcLineFits f (f.lm.lines v).vpc
  eraseCnt : ∀ ch < f.sp.nchs, ∀ lun < f.sp.lunsPerCh,
    (f.blocks (pageAt v ch lun 0)).eraseCnt.toInt + 1 < 2 ^ 31

/-! ## The GC stream -/

/-- The GC write pointer and the lines after `n` copies: in the line where the stream began, or in the
line that was the first free one. -/
inductive Stream (f₀ : ConvFtl) (n : Nat) (wp : WritePointer) (lm : LineMgmt) : Prop where
  | same (hcur : wp.curline = f₀.gcWp.curline) (hfree : lm.freeLineList = f₀.lm.freeLineList)
    (hplace : wp.place f₀.sp = f₀.gcWp.place f₀.sp + n)
    (hvpc : (lm.lines wp.curline).vpc = (f₀.lm.lines f₀.gcWp.curline).vpc + n)
    (hipc : (lm.lines wp.curline).ipc = (f₀.lm.lines f₀.gcWp.curline).ipc)
    (hfits : n = 0 ∨ (f₀.lm.lines f₀.gcWp.curline).vpc + n ≤ 2 ^ 31)
  | next (hfree : f₀.lm.freeLineList = wp.curline :: lm.freeLineList)
    (hplace : wp.place f₀.sp + f₀.sp.pgsPerLine = f₀.gcWp.place f₀.sp + n)
    (hvpc : (lm.lines wp.curline).vpc = wp.place f₀.sp)
    (hfits : (f₀.lm.lines f₀.gcWp.curline).vpc + (f₀.sp.pgsPerLine - f₀.gcWp.place f₀.sp) < 2 ^ 31 ∧
      (f₀.lm.lines f₀.gcWp.curline).ipc < 2 ^ 31)

/-- The counter of the line of a page that was placed. -/
theorem placed_line (f : ConvFtl) (io : IoType) (lpn : Nat) :
    (placed f io lpn).lm.lines (f.getWp io).curline =
      { ipc := (f.lm.lines (f.getWp io).curline).ipc
        vpc := (f.lm.lines (f.getWp io).curline).vpc + 1 } :=
  update_self ..

theorem placed_gcLine (f : ConvFtl) (lpn : Nat) : (placed f .gcIo lpn).lm.lines f.gcWp.curline =
    { ipc := (f.lm.lines f.gcWp.curline).ipc, vpc := (f.lm.lines f.gcWp.curline).vpc + 1 } :=
  placed_line f .gcIo lpn

theorem placed_line_of_ne (f : ConvFtl) (io : IoType) (lpn : Nat) {l : Nat}
    (h : l ≠ (f.getWp io).curline) : (placed f io lpn).lm.lines l = f.lm.lines l := update_of_ne h ..

/-- A free line has no valid page. -/
theorem Accounting.vpc_of_free {f : ConvFtl} {cls : Nat → LineClass} {freed : Nat → Nat → Prop}
    {fill : IoType → Nat} (h : Accounting f cls freed fill) {l : Nat} (hl : l ∈ f.lm.freeLineList) :
    (f.lm.lines l).vpc = 0 ∧ cls l = .free := by
  obtain ⟨hlt, hc⟩ := (h.lists.mem_free l).mp hl
  refine ⟨?_, hc⟩
  rw [h.counts.vpc l hlt (by rw [hc]; decide)]
  refine lineCount_eq_zero.mpr fun ch hch lun hlun pg hpg => ?_
  rw [(h.fillInv l hlt ch hch lun hlun pg hpg).mpr (by rw [hc]; trivial)]
  decide

section Stream

variable {f₀ f f₁ : ConvFtl} {cls : Nat → LineClass} {freed : Nat → Nat → Prop} {fill : IoType → Nat}
  {n N lpn : Nat}

/-- The page of the GC write pointer is in the stream. -/
theorem Stream.inGcStream (h : Stream f₀ n f.gcWp f.lm) : InGcStream f₀ f.gcWp.page := by
  cases h with
  | same hcur => exact .inl hcur
  | next hfree => exact .inr (by rw [hfree]; rfl)

section Step

variable (h : Stream f₀ n f.gcWp f.lm) (hr : Ready f cls freed fill) (hsp : f.sp = f₀.sp)
  (hplace : f₀.gcWp.place f₀.sp < f₀.sp.pgsPerLine)

include h hr hsp hplace

/-- One more copy. -/
theorem Stream.succ (hn : n + 1 < f₀.sp.pgsPerLine) (hturn : Turned (placed f .gcIo lpn) .gcIo f₁)
    (hsmall : (f.lm.lines f.gcWp.curline).vpc < 2 ^ 31) : Stream f₀ (n + 1) f₁.gcWp f₁.lm := by
  have hline := placed_gcLine f lpn
  obtain ⟨hturn, -, -⟩ := hturn
  cases hturn with
  | page hcur hstep hlm =>
    change f₁.gcWp.curline = f.gcWp.curline at hcur
    change f₁.gcWp.place f.sp = f.gcWp.place f.sp + 1 at hstep
    rw [hsp] at hstep
    have hlines : f₁.lm.lines f₁.gcWp.curline = { ipc := (f.lm.lines f.gcWp.curline).ipc
                                                  vpc := (f.lm.lines f.gcWp.curline).vpc + 1 } := by
      rw [hlm, hcur, hline]
    have hfree₁ : f₁.lm.freeLineList = f.lm.freeLineList := congrArg (·.freeLineList) hlm
    cases h with
    | same hcur₀ hfree hp hvpc hipc hfits =>
      refine .same (hcur.trans hcur₀) (hfree₁.trans hfree) (by omega) ?_ ?_ (by omega)
      · rw [hlines]
        dsimp only
        omega
      · rw [hlines]
        exact hipc
    | next hfree hp hvpc hfits =>
      refine .next (by rw [hfree₁, hcur, hfree]) (by omega) ?_ hfits
      rw [hlines]
      dsimp only
      omega
  | line hend hint hfree hzero hlines =>
    change f.gcWp.place f.sp + 1 = f.sp.pgsPerLine at hend
    change f.lm.freeLineList = f₁.gcWp.curline :: f₁.lm.freeLineList at hfree
    change f₁.gcWp.place f.sp = 0 at hzero
    change ((placed f .gcIo lpn).lm.lines f.gcWp.curline).FitsInt at hint
    rw [hline] at hint
    rw [hsp] at hend hzero
    cases h with
    | same hcur₀ hfree₀ hp hvpc hipc hfits =>
      obtain ⟨hv, hi⟩ := hint
      dsimp only at hv hi
      have hnew : f₁.gcWp.curline ∈ f.lm.freeLineList := by
        rw [hfree]
        exact List.mem_cons_self
      obtain ⟨hvpc₁, hc⟩ := hr.acc.vpc_of_free hnew
      have hne : f₁.gcWp.curline ≠ f.gcWp.curline := by
        intro he
        have hcur := (hr.acc.wp.current .gcIo _ (hr.acc.wp.inLine .gcIo).curline).mpr rfl
        change cls f.gcWp.curline = .gc at hcur
        rw [← he, hc] at hcur
        cases hcur
      refine .next (hfree₀.symm.trans hfree) (by omega) ?_ (by omega)
      rw [hlines, placed_line_of_ne f .gcIo lpn hne, hvpc₁, hzero]
    | next hfree₀ hp hvpc hfits => omega

/-- The assertions on the counters of the line of the stream hold for the next copy of `N`. -/
theorem Stream.fits (lpn : Nat) (hN : N < f₀.sp.pgsPerLine) (hn : n < N) (hsmall : N < 2 ^ 31)
    (hfree₀ : f₀.lm.freeLineList ≠ []) (hS : GcLineFits f₀ N) :
    (f.lm.lines f.gcWp.curline).vpc < 2 ^ 31 ∧ (f.gcWp.place f.sp + 1 = f.sp.pgsPerLine →
      ((placed f .gcIo lpn).lm.lines f.gcWp.curline).FitsInt ∧ f.lm.freeLineList ≠ []) := by
  have hline := placed_gcLine f lpn
  have hlt : f.gcWp.place f.sp < f.sp.pgsPerLine := (hr.acc.wp.inLine .gcIo).place_lt hr.acc.geometry
  unfold GcLineFits at hS
  dsimp only at hS
  rw [hline, hsp]
  rw [hsp] at hlt
  unfold Line.FitsInt
  dsimp only
  cases h with
  | same hcur hfree hp hvpc hipc hfits =>
    rw [hfree]
    split at hS
    · exact ⟨by omega, fun hend => by omega⟩
    · exact ⟨by omega, fun hend => ⟨by omega, hfree₀⟩⟩
  | next hfree hp hvpc hfits => exact ⟨by omega, fun hend => by omega⟩

omit hplace in
/-- The counters did not overflow. -/
theorem Stream.gcLineFits : GcLineFits f₀ n := by
  have hlt : f.gcWp.place f.sp < f.sp.pgsPerLine := (hr.acc.wp.inLine .gcIo).place_lt hr.acc.geometry
  rw [hsp] at hlt
  unfold GcLineFits
  dsimp only
  cases h with
  | same hcur hfree hp hvpc hipc hfits =>
    rw [if_pos (by omega)]
    exact hfits
  | next hfree hp hvpc hfits =>
    rw [if_neg (by omega)]
    exact hfits

end Step

end Stream

/-! ## The copies -/

/-- The page of `lpn` is among the first `k` pages of the line `v`. -/
def PassedLpn (f : ConvFtl) (m v k lpn : Nat) : Prop :=
  MappedInto f m v lpn ∧ gcOrder f.sp (f.maptbl lpn).ch (f.maptbl lpn).lun (f.maptbl lpn).pg < k

/-- What a collection of the line `v` did since `f₀`, after `k` pages and `b` blocks: it wrote
`pages`. -/
structure Moving (m : Nat) (f₀ : ConvFtl) (v k b : Nat) (pages : Finset Ppa) (f : ConvFtl) : Prop where
  wp : f.wp = f₀.wp
  card : pages.card = copied f₀ v k
  writes : WritesPages f₀ v pages f
  line : ∀ p ∈ pages, InGcStream f₀ p
  kept : ∀ lpn, ¬ PassedLpn f₀ m v k lpn → f.maptbl lpn = f₀.maptbl lpn
  moved : ∀ lpn, PassedLpn f₀ m v k lpn → f.maptbl lpn ∈ pages
  eraseCnt : ∀ ch < f₀.sp.nchs, ∀ lun < f₀.sp.lunsPerCh, (f.blocks (pageAt v ch lun 0)).eraseCnt =
    (f₀.blocks (pageAt v ch lun 0)).eraseCnt + if ch * f₀.sp.lunsPerCh + lun < b then 1 else 0
  stream : Stream f₀ (copied f₀ v k) f.gcWp f.lm

section Moving

variable {m v k b : Nat} {f₀ f f₁ : ConvFtl} {fill₀ fill : IoType → Nat} {written : Nat → Prop}
  {cls : Nat → LineClass} {pages : Finset Ppa} {q : Ppa}

theorem Moving.issue (h : Moving m f₀ v k b pages f) (cmd : NandCmd) :
    Moving m f₀ v k b pages (f.issue cmd) := by
  unfold ConvFtl.issue
  split
  · exact ⟨h.wp, h.card, ⟨h.writes.written, h.writes.others⟩, h.line, h.kept, h.moved, h.eraseCnt,
      h.stream⟩
  · exact h

/-- Nothing is copied at the start. -/
theorem Moving.zero (m v : Nat) (f₀ : ConvFtl) : Moving m f₀ v 0 0 ∅ f₀ := by
  have hzero := copied_zero f₀ v
  refine ⟨rfl, hzero.symm, ⟨fun p hp => (by cases hp), fun p _ _ _ => rfl⟩, fun p hp => (by cases hp),
    fun _ _ => rfl, fun lpn hl => absurd hl.2 (Nat.not_lt_zero _), fun ch _ lun _ => ?_, ?_⟩
  · rw [if_neg (Nat.not_lt_zero _)]
    exact (BitVec.add_zero _).symm
  · rw [hzero]
    exact .same rfl rfl rfl rfl rfl (.inl rfl)

/-- A block of the line becomes free. -/
theorem Moving.free (h : Moving m f₀ v k b pages f) {ch lun : Nat} (hlun : lun < f₀.sp.lunsPerCh)
    (hb : b = ch * f₀.sp.lunsPerCh + lun) : Moving m f₀ v k (b + 1) pages (freedBlock f v ch lun) := by
  have hpages {p : Ppa} (hp : OnChip f₀.sp p) (hv : p.blk ≠ v) :
      (freedBlock f v ch lun).pages p = f.pages p := by
    rw [hp.eq_pageAt]
    exact erased_of_ne fun he => hv he.1
  refine ⟨h.wp, h.card, ⟨fun p hp => ?_, fun p hp hv hno => ?_⟩, h.line, h.kept, h.moved,
    fun ch' _ lun' hlun' => ?_, h.stream⟩
  · obtain ⟨hon, hv, hfree, hvalid⟩ := h.writes.written p hp
    exact ⟨hon, hv, hfree, by rwa [hpages hon hv]⟩
  · rw [hpages hp hv]
    exact h.writes.others p hp hv hno
  · have hold := h.eraseCnt ch' ‹_› lun' hlun'
    change (update f.blocks (pageAt v ch lun 0) _ (pageAt v ch' lun' 0)).eraseCnt = _
    by_cases he : pageAt v ch' lun' 0 = pageAt v ch lun 0
    · obtain ⟨-, rfl, rfl, -⟩ := pageAt_inj he
      rw [update_self, if_pos (by omega)]
      dsimp only
      rw [hold, if_neg (by omega)]
      exact congrArg (· + 1) (BitVec.add_zero _)
    · have hne : ch' * f₀.sp.lunsPerCh + lun' ≠ b := by
        rw [hb]
        intro heq
        obtain ⟨rfl, rfl⟩ := radix_inj hlun' hlun heq
        exact he rfl
      rw [update_of_ne he, hold]
      refine congrArg _ (if_congr ?_ rfl rfl)
      omega

section Step

variable (hmap₀ : MapInv f₀ m written (fun _ => False) fun _ => False)
  (hcol : Collecting True f₀ fill₀ v m written k b f cls fill) (h : Moving m f₀ v k b pages f)
  (hq : OnChip f₀.sp q) (hv : q.blk = v) (hk : gcOrder f₀.sp q.ch q.lun q.pg = k)

include hmap₀ hcol h hq hv hk

omit h in
/-- The logical pages of the first `k + 1` pages: one of them can be on the last. -/
theorem Moving.passed_succ (lpn : Nat) : PassedLpn f₀ m v (k + 1) lpn ↔
    PassedLpn f₀ m v k lpn ∨ MappedInto f₀ m v lpn ∧ f₀.maptbl lpn = q := by
  have g : Geometry f₀.sp := hcol.sp ▸ hcol.ready.acc.geometry
  constructor
  · rintro ⟨hinto, hlt⟩
    obtain hlt | he : gcOrder f₀.sp (f₀.maptbl lpn).ch (f₀.maptbl lpn).lun (f₀.maptbl lpn).pg < k ∨
      gcOrder f₀.sp (f₀.maptbl lpn).ch (f₀.maptbl lpn).lun (f₀.maptbl lpn).pg = k := by omega
    · exact .inl ⟨hinto, hlt⟩
    · have hon := (hmap₀.page lpn hinto.lt id hinto.mapped).1
      rw [← hk] at he
      obtain ⟨h1, h2, h3⟩ := g.gcOrder_inj hon.ch hon.lun hq.ch hq.lun he
      refine .inr ⟨hinto, ?_⟩
      rw [hon.eq_pageAt, hq.eq_pageAt, h1, h2, h3, hinto.blk, hv]
  · rintro (⟨hinto, hlt⟩ | ⟨hinto, rfl⟩)
    · exact ⟨hinto, by omega⟩
    · exact ⟨hinto, by omega⟩

/-- A page that is not valid is passed. -/
theorem Moving.skip (hs : (f.pages q).status ≠ .valid) : Moving m f₀ v (k + 1) b pages f := by
  have hkept := hcol.kept q hq hv (Nat.le_of_eq hk.symm)
  have hcopied : copied f₀ v (k + 1) = copied f₀ v k := by
    rw [hcol.copied_succ hq hv hk, beq_false_of_ne hs]
    rfl
  have hpassed (lpn : Nat) : PassedLpn f₀ m v (k + 1) lpn ↔ PassedLpn f₀ m v k lpn := by
    rw [Moving.passed_succ hmap₀ hcol hq hv hk]
    refine or_iff_left ?_
    rintro ⟨hinto, rfl⟩
    have hvalid := (hmap₀.page lpn hinto.lt id hinto.mapped).2.1
    rw [← hkept] at hvalid
    exact hs hvalid
  refine ⟨h.wp, hcopied ▸ h.card, h.writes, h.line,
    fun lpn hno => h.kept lpn (mt (hpassed lpn).mpr hno), fun lpn hp => h.moved lpn ((hpassed lpn).mp hp), h.eraseCnt, hcopied ▸ h.stream⟩

omit hmap₀ in
/-- The logical page of a valid page that is not passed is mapped to it since the start. -/
theorem Moving.lpn_of_valid (hs : (f.pages q).status = .valid) :
    MappedInto f₀ m v (f.rmap (pgidx f.sp q)) ∧ f₀.maptbl (f.rmap (pgidx f.sp q)) = q := by
  have hkept := hcol.kept q hq hv (Nat.le_of_eq hk.symm)
  have hstale : ¬ (q.blk = v ∧ gcOrder f₀.sp q.ch q.lun q.pg < k) := by omega
  obtain ⟨hlt, -, htbl⟩ := (hcol.map trivial).lpn q (hcol.sp.symm ▸ hq) hs hstale
  have hno : ¬ PassedLpn f₀ m v k (f.rmap (pgidx f.sp q)) := by
    intro hp
    have hmem := h.moved _ hp
    rw [htbl] at hmem
    exact (h.writes.written q hmem).2.1 hv
  rw [h.kept _ hno] at htbl
  exact ⟨⟨hlt, by rw [htbl]; exact hq.mapped, by rw [htbl, hv]⟩, htbl⟩

/-- A valid page is copied to the page of the GC write pointer. -/
theorem Moving.copy (hs : (f.pages q).status = .valid) (hn : copied f₀ v (k + 1) < f₀.sp.pgsPerLine)
    (hplace : f₀.gcWp.place f₀.sp < f₀.sp.pgsPerLine) {cls' : Nat → LineClass} {fill' : IoType → Nat}
    (hP : Programmed .gcIo (f.rmap (pgidx f.sp q)) f cls (freedUpTo f₀.sp b) fill (f.getWp .gcIo).page f₁
      cls' fill') (hturn : Turned (placed f .gcIo (f.rmap (pgidx f.sp q))) .gcIo f₁)
    (hsmall : (f.lm.lines f.gcWp.curline).vpc < 2 ^ 31) :
    Moving m f₀ v (k + 1) b (insert f.gcWp.page pages) f₁ := by
  have hne : f.gcWp.page.blk ≠ v := hcol.wp_ne .gcIo
  have hfree : (f.pages f.gcWp.page).status = .free :=
    (hcol.ready.acc.validated .gcIo (hcol.ready.place .gcIo)).1
  have hon : OnChip f₀.sp f.gcWp.page := hcol.sp ▸ (hcol.ready.acc.wp.inLine .gcIo).onChip
  have hnew : f.gcWp.page ∉ pages := by
    intro hmem
    have hvalid := (h.writes.written _ hmem).2.2.2
    rw [hfree] at hvalid
    cases hvalid
  have hfree₀ : (f₀.pages f.gcWp.page).status = .free := by
    rw [← h.writes.others _ hon hne hnew]
    exact hfree
  have hcopied : copied f₀ v (k + 1) = copied f₀ v k + 1 := by
    rw [hcol.copied_succ hq hv hk, hs]
    rfl
  have hpages : f₁.pages = update f.pages f.gcWp.page
      { status := .valid, nsecs := (f.pages f.gcWp.page).nsecs } := hP.pages
  have hmaptbl : f₁.maptbl = update f.maptbl (f.rmap (pgidx f.sp q)) f.gcWp.page := hP.maptbl
  obtain ⟨hinto, htbl⟩ := Moving.lpn_of_valid hcol h hq hv hk hs
  have hpassed := Moving.passed_succ hmap₀ hcol hq hv hk
  refine ⟨?_, ?_, ⟨fun p hp => ?_, fun p hp hpv hno => ?_⟩, fun p hp => ?_, fun lpn hno => ?_,
    fun lpn hp => ?_, fun ch hch lun hlun => ?_, ?_⟩
  · exact (hturn.others .userIo (by decide)).trans h.wp
  · rw [Finset.card_insert_of_notMem hnew, h.card, hcopied]
  · rw [hpages]
    obtain rfl | hp := Finset.mem_insert.mp hp
    · rw [update_self]
      exact ⟨hon, hne, hfree₀, rfl⟩
    · rw [update_of_ne (ne_of_mem_of_not_mem hp hnew)]
      exact h.writes.written p hp
  · obtain ⟨hpne, hno⟩ := not_or.mp (mt Finset.mem_insert.mpr hno)
    rw [hpages, update_of_ne hpne]
    exact h.writes.others p hp hpv hno
  · obtain rfl | hp := Finset.mem_insert.mp hp
    · exact h.stream.inGcStream
    · exact h.line p hp
  · obtain ⟨hno, hnot⟩ := not_or.mp (mt (hpassed lpn).mpr hno)
    rw [hmaptbl, update_of_ne]
    · exact h.kept lpn hno
    · rintro rfl
      exact hnot ⟨hinto, htbl⟩
  · rw [hmaptbl]
    by_cases he : lpn = f.rmap (pgidx f.sp q)
    · rw [he, update_self]
      exact Finset.mem_insert_self ..
    · rw [update_of_ne he]
      obtain hp | ⟨hin, hat⟩ := (hpassed lpn).mp hp
      · exact Finset.mem_insert_of_mem (h.moved lpn hp)
      · exact absurd (hmap₀.injective hin.lt hinto.lt id id hin.mapped (hat.trans htbl.symm)) he
  · have hblocks : (f₁.blocks (pageAt v ch lun 0)).eraseCnt =
        (f.blocks (pageAt v ch lun 0)).eraseCnt := by
      rw [hturn.blocks]
      change (update f.blocks f.gcWp.page.block _ _).eraseCnt = _
      rw [update_of_ne]
      intro he
      rw [(hcol.sp.symm ▸ hon : OnChip f.sp f.gcWp.page).block] at he
      exact hne (pageAt_inj he).1.symm
    rw [hblocks]
    exact h.eraseCnt ch hch lun hlun
  · rw [hcopied] at hn ⊢
    exact h.stream.succ hcol.ready hcol.sp hplace hn hturn hsmall

end Step

/-- The loops keep `Moving`, and return if the counters of the line of the stream fit. -/
theorem Moving.visits {S : Prop} (hmap₀ : MapInv f₀ m written (fun _ => False) fun _ => False)
    (g : Geometry f₀.sp) (hlt : v < f₀.sp.blksPerPl) (hplace : f₀.gcWp.place f₀.sp < f₀.sp.pgsPerLine)
    (hN : lineCount f₀.sp f₀.pages .valid v < f₀.sp.pgsPerLine)
    (hsmall : lineCount f₀.sp f₀.pages .valid v < 2 ^ 31) (hfree : f₀.lm.freeLineList ≠ [])
    (hS : S → GcLineFits f₀ (lineCount f₀.sp f₀.pages .valid v)) :
    Visits S f₀.sp v fun k b f => ∃ cls fill pages,
      Collecting True f₀ fill₀ v m written k b f cls fill ∧ Moving m f₀ v k b pages f where
  geometry := g
  lt := hlt
  sp_eq := fun ⟨_, _, _, hcol, _⟩ => hcol.sp
  nand := fun ⟨_, _, _, hcol, _⟩ => hcol.ready.acc.nand
  issue := fun cmd ⟨cls, fill, pages, hcol, h⟩ => ⟨cls, fill, pages, hcol.issue cmd, h.issue cmd⟩
  notFree := fun ⟨_, _, _, hcol, _⟩ hq hv hb => hcol.not_free hq hv hb
  skip := fun ⟨cls, fill, pages, hcol, h⟩ hq hv hk hs =>
    ⟨cls, fill, pages, hcol.skip hq hv hk hs, h.skip hmap₀ hcol hq hv hk hs⟩
  copy := by
    rintro k b f q ⟨cls, fill, pages, hcol, h⟩ hq hv hk hs
    have hcopied : copied f₀ v (k + 1) = copied f₀ v k + 1 := by
      rw [hcol.copied_succ hq hv hk, hs]
      rfl
    have hle := copied_le f₀ v (k + 1)
    have hfits (s : S) := h.stream.fits hcol.ready hcol.sp hplace (f.rmap (pgidx f.sp q)) hN
      (by omega) hsmall hfree (hS s)
    refine (hcol.gcWritePage hq hv hk hs
      (fun _ => hcol.rmap_lt hq trivial (Nat.le_of_eq hk.symm) hs) (fun s => (hfits s).1)
      fun s hend => (hfits s).2 ?_).mono ?_
    · rw [← hend, ← hcol.ready.place .gcIo]
      rfl
    · rintro f' ⟨f₁, cmd, cls', fill', rfl, hP, hturn, hvpc, hcol'⟩
      exact ⟨cls', fill', _, hcol'.issue cmd,
        (h.copy hmap₀ hcol hq hv hk hs (by omega) hplace hP hturn hvpc).issue cmd⟩
  free := fun ⟨cls, fill, pages, hcol, h⟩ hch hlun hb hall =>
    ⟨cls, fill, pages, hcol.markBlockFree hch hlun hb hall, h.free hlun hb⟩

end Moving

/-! ## The whole collection -/

/-- An `int` that is counted up. -/
theorem toInt_succ (x : BitVec 32) : (x + 1).toInt = x.toInt + 1 ↔ x.toInt + 1 < 2 ^ 31 := by
  have hlt := x.toInt_lt
  have hge := x.le_toInt
  have hone : (1 : BitVec 32).toInt = 1 := rfl
  rw [BitVec.toInt_add, hone]
  unfold Int.bmod
  dsimp only
  split <;> omega

section Collection

variable {m v : Nat} {f f₁ : ConvFtl} {fill fill₁ : IoType → Nat} {written : Nat → Prop}
  {cls cls₁ : Nat → LineClass} {pages : Finset Ppa}

/-- The copies of a collection. -/
theorem Idle.copied_all (h : Idle True m written f cls fill) (hlt : v < f.sp.blksPerPl) :
    copied (collectionStart f v) v f.sp.pgsPerLine = (f.lm.lines v).vpc :=
  (Nvmev.copied_all (f := collectionStart f v) h.ready.acc.geometry v).trans
    (h.ready.acc.counts.vpc v hlt (h.quiet v hlt)).symm

/-- After the loops. -/
theorem Moving.transparent (h : Idle True m written f cls fill) (hlt : v < f.sp.blksPerPl)
    (hcol : Collecting True (collectionStart f v) fill v m written f.sp.pgsPerLine
      (f.sp.nchs * f.sp.lunsPerCh) f₁ cls₁ fill₁)
    (hmov : Moving m (collectionStart f v) v f.sp.pgsPerLine (f.sp.nchs * f.sp.lunsPerCh) pages f₁) :
    Transparent m f v (markLineFree f₁ v) ↔ ∀ ch < f.sp.nchs, ∀ lun < f.sp.lunsPerCh,
      (f.blocks (pageAt v ch lun 0)).eraseCnt.toInt + 1 < 2 ^ 31 := by
  have g := h.ready.acc.geometry
  have hidle := hcol.markLineFree
  have hmap := hidle.map trivial
  have hall := h.copied_all hlt
  have hpassed (lpn : Nat) : PassedLpn (collectionStart f v) m v f.sp.pgsPerLine lpn ↔
      MappedInto f m v lpn := by
    refine ⟨fun hp => ⟨hp.1.lt, hp.1.mapped, hp.1.blk⟩,
      fun hinto => ⟨⟨hinto.lt, hinto.mapped, hinto.blk⟩, ?_⟩⟩
    have hon := ((h.map trivial).page lpn hinto.lt id hinto.mapped).1
    exact g.gcOrder_lt_line hon.ch hon.lun hon.pg
  have hmapped {lpn : Nat} (hinto : MappedInto f m v lpn) : mappedPpa (f₁.maptbl lpn) = true :=
    (hmap.mapped lpn hinto.lt id).mpr (((h.map trivial).mapped lpn hinto.lt id).mp hinto.mapped)
  have herase {ch lun : Nat} (hch : ch < f.sp.nchs) (hlun : lun < f.sp.lunsPerCh) :
      (f₁.blocks (pageAt v ch lun 0)).eraseCnt = (f.blocks (pageAt v ch lun 0)).eraseCnt + 1 :=
    (hmov.eraseCnt ch hch lun hlun).trans (congrArg (_ + ·) (if_pos (radix_lt hch hlun)))
  constructor
  · intro ht ch hch lun hlun
    have hsucc := ht.eraseCnt ch hch lun hlun
    change (f₁.blocks (pageAt v ch lun 0)).eraseCnt.toInt = _ at hsucc
    rwa [herase hch hlun, toInt_succ] at hsucc
  · intro hcnt
    refine ⟨fun lpn hno => hmov.kept lpn (mt (hpassed lpn).mp hno),
      ⟨pages, hmov.card.trans hall, ⟨hmov.writes.written, hmov.writes.others⟩, hmov.line,
        fun lpn hinto => hmov.moved lpn ((hpassed lpn).mpr hinto)⟩,
      fun lpn lpn' hinto hinto' he => hmap.injective hinto.lt hinto'.lt id id (hmapped hinto) he,
      hmov.wp, fun p hp hv => ?_, fun ch hch lun hlun => ?_, ⟨f₁.lm.freeLineList, rfl, ?_⟩, ?_⟩
    · have hp₁ : OnChip f₁.sp p := hcol.sp.symm ▸ hp
      have hfree := hidle.ready.acc.fillInv p.blk hp₁.blk p.ch hp₁.ch p.lun hp₁.lun p.pg hp₁.pg
      rw [← hp.eq_pageAt, hv, update_self] at hfree
      exact hfree.mpr trivial
    · change (f₁.blocks (pageAt v ch lun 0)).eraseCnt.toInt = _
      rw [herase hch hlun]
      exact (toInt_succ _).mpr (hcnt ch hch lun hlun)
    · cases hmov.stream with
      | same hcur hfree => exact .inl hfree.symm
      | next hfree => exact .inr hfree
    · change f₁.wfc.creditsToRefill = _
      rw [hcol.wfc]
      rfl

theorem Idle.transparent (h : Idle True m written f cls fill) (hfree : f.lm.freeLineList ≠ [])
    (hv : f.lm.victimLinePq.peek = some v) :
    Spec (GcLineFits f (f.lm.lines v).vpc) (Nvmev.doGc f true) fun f' =>
      GcLineFits f (f.lm.lines v).vpc ∧ (Transparent m f v f' ↔ ∀ ch < f.sp.nchs, ∀ lun < f.sp.lunsPerCh,
        (f.blocks (pageAt v ch lun 0)).eraseCnt.toInt + 1 < 2 ^ 31) := by
  have hacc := h.ready.acc
  have g := hacc.geometry
  obtain ⟨hlt, hcls, hcol⟩ := h.victim hv
  have hipc := hacc.counts.victim v hlt hcls
  have hsum := h.victim_counts hlt hcls
  have hvpc := hacc.counts.vpc v hlt (h.quiet v hlt)
  have hsmall := hacc.lists.small v ((hacc.lists.mem_victim v).mpr ⟨hlt, hcls⟩)
  have hplace : f.gcWp.place f.sp < f.sp.pgsPerLine := (hacc.wp.inLine .gcIo).place_lt g
  have hvisits : Visits (GcLineFits f (f.lm.lines v).vpc) f.sp v fun k b f₁ => ∃ cls fill₁ pages,
      Collecting True (collectionStart f v) fill v m written k b f₁ cls fill₁ ∧
        Moving m (collectionStart f v) v k b pages f₁ := by
    have hmap₀ : MapInv (collectionStart f v) m written (fun _ => False) fun _ => False :=
      (h.map trivial).congr rfl rfl rfl rfl
    refine Moving.visits hmap₀ g hlt hplace ?_ ?_ hfree fun hfits => ?_
    · change lineCount f.sp f.pages .valid v < f.sp.pgsPerLine
      omega
    · change lineCount f.sp f.pages .valid v < 2 ^ 31
      omega
    · rw [hvpc] at hfits
      exact hfits
  rw [doGc_eq hv]
  refine (hvisits.loops ⟨_, _, ∅, hcol, .zero m v _⟩).bind ?_
  rintro f₁ ⟨cls₁, fill₁, pages, hcol₁, hmov⟩
  refine .ret ⟨?_, hmov.transparent h hlt hcol₁⟩
  have hfits := hmov.stream.gcLineFits hcol₁.ready hcol₁.sp
  rwa [h.copied_all hlt] at hfits

end Collection

/-- `do_gc` collects the victim line, exactly if the `int` counters that it counts up do not overflow:
the counters of the line of the GC stream and the `erase_cnt` of the blocks of the victim line. -/
theorem gc_transparent_iff {m v : Nat} {f : ConvFtl} {fill : IoType → Nat} {written : Nat → Prop}
    {cls : Nat → LineClass} (h : Idle True m written f cls fill) (hfree : f.lm.freeLineList ≠ [])
    (hv : f.lm.victimLinePq.peek = some v) :
    Total (doGc f true) (Transparent m f v) ↔ CountersFit f v := by
  have hgc := h.transparent hfree hv
  constructor
  · rintro ⟨f', hf', ht⟩
    obtain ⟨hline, hcnt⟩ := hgc.post f' hf'
    exact ⟨hline, hcnt.mp ht⟩
  · intro hfits
    exact (hgc.total hfits.line).mono fun f' hf' => hf'.2.mpr hfits.eraseCnt

/-- The GC stream goes on to its next line in the middle of the copies. -/
theorem gc_transparent_iff_next_line : Total (doGc (queued .pro16TiB 32760 100) true)
    (Transparent SsdParams.pro16TiB.ttPgs (queued .pro16TiB 32760 100) 2) := by
  have g : Geometry .pro16TiB := convGeometry_pro16TiB.geometry
  have hidle := queued_idle (a := 32760) (b := 100) g (by decide) (by decide) (by decide) (by decide)
  refine (gc_transparent_iff hidle (queued_free g) rfl).mpr ⟨?_, fun _ _ _ _ => ?_⟩
  · unfold GcLineFits
    decide +kernel
  · change (0 : BitVec 32).toInt + 1 < 2 ^ 31
    decide

/-- The counter of valid pages of the GC line becomes negative, and an assertion of `mark_page_valid`
fails. -/
theorem gc_stops_on_overflow : LineAccounting (queued .wide 32760 16388) ∧
    Idle True SsdParams.wide.ttPgs (queuedWritten .wide 32760 16388) (queued .wide 32760 16388) queuedCls
      (queuedFill .wide 32760) ∧
    (queued .wide 32760 16388).lm.freeLineList ≠ [] ∧
    (queued .wide 32760 16388).lm.victimLinePq.peek = some 2 ∧
    ¬ Total (doGc (queued .wide 32760 16388) true)
      (Transparent SsdParams.wide.ttPgs (queued .wide 32760 16388) 2) := by
  have g : Geometry .wide := convGeometry_wide.geometry
  have hidle := queued_idle (a := 32760) (b := 16388) g (by decide) (by decide) (by decide) (by decide)
  refine ⟨hidle.lineAccounting fun l hl => ?_, hidle, queued_free g, rfl, ?_⟩
  · revert l
    unfold Line.FitsInt
    decide +kernel
  · rintro ⟨f', hf', -⟩
    have hfits := ((hidle.transparent (queued_free g) rfl).post f' hf').1
    revert hfits
    unfold GcLineFits
    decide +kernel

end Nvmev
