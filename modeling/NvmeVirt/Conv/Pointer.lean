import NvmeVirt.Conv.Status

/-!
# The write pointers

`advance_write_pointer` after the page at the write pointer became valid: the pointer goes on to the
next page in the `order` of its line (`Accounting.moveWp`), or the line is written to its end, goes to
the full list or the queue of victim lines (`Accounting.retireLine`), and the first free line is
taken in its place (`Accounting.nextLine`). The `space` that is left does not change.
-/

namespace Nvmev

open CInt Function Outcome Tally

variable {f : ConvFtl} {cls : Nat → LineClass} {freed : Nat → Nat → Prop} {fill : IoType → Nat}

/-- `get_new_page`. -/
theorem LineGeometry.getNewPage (g : LineGeometry f.sp) {io : IoType} (h : InLine f.sp (f.getWp io)) :
    getNewPage f io = .ok (f.getWp io).page := by
  unfold Nvmev.getNewPage nvmevAssert
  simp only [h.pl, h.blk, g.fits.ofFields_eq h.curline h.ch h.lun h.pg]
  exact congrArg (· >>= fun _ => .ok (f.getWp io).page) (ensure_of (c := (f.getWp io).page.pl = 0) _ rfl)

theorem getNewPage_eq (g : Geometry f.sp) {io : IoType} (h : InLine f.sp (f.getWp io)) :
    getNewPage f io = .ok (f.getWp io).page := g.line.getNewPage h

/-- The accounting with the write pointer of `io` on another page of its line. -/
theorem Accounting.moveWp (h : Accounting f cls freed fill) (io : IoType) {wp : WritePointer}
    (hin : InLine f.sp wp) (hcur : wp.curline = (f.getWp io).curline) :
    Accounting (f.setWp wp io) cls freed fill := by
  obtain ⟨hsp, -, hpages, hblocks, -, -, hlm, -⟩ := setWp_eq f wp io
  refine ⟨hsp ▸ h.geometry, h.nand.congr hsp hpages hblocks, h.fillInv.congr hsp hpages,
    h.counts.congr hsp hpages (congrArg _ hlm), by rw [hsp, hlm]; exact h.lists, ⟨?_, ?_⟩⟩
  · intro io'
    rw [hsp]
    by_cases he : io' = io
    · subst he
      rwa [getWp_setWp_self]
    · rw [getWp_setWp_of_ne f wp he]
      exact h.wp.inLine io'
  · intro io' l hl
    rw [hsp] at hl
    by_cases he : io' = io
    · subst he
      rw [getWp_setWp_self, hcur]
      exact h.wp.current io' l hl
    · rw [getWp_setWp_of_ne f wp he]
      exact h.wp.current io' l hl

/-! ## The end of a line -/

/-- The pages that are left for writing: those of the free lines and of the lines of the write
pointers. -/
def space (f : ConvFtl) (fill : IoType → Nat) : Nat :=
  f.lm.freeLineList.length * f.sp.pgsPerLine + (f.sp.pgsPerLine - fill .userIo) +
    (f.sp.pgsPerLine - fill .gcIo)

theorem Geometry.pgsPerLine_le {sp : SsdParams} (g : Geometry sp) : sp.pgsPerLine ≤ 2 ^ 32 := by
  rw [g.pgsPerLine]
  calc sp.lunsPerCh * sp.nchs * sp.pgsPerBlk ≤ 2 ^ 8 * 2 ^ 8 * 2 ^ 16 :=
      Nat.mul_le_mul (Nat.mul_le_mul g.fits.lun g.fits.ch) g.fits.pg
    _ = 2 ^ 32 := by norm_num

/-- The counters of a line are not negative as `int`. -/
def Line.FitsInt (line : Line) : Prop := line.vpc < 2 ^ 31 ∧ line.ipc < 2 ^ 31

/-- The line of a write pointer after its last page: where `advance_write_pointer` puts it. -/
structure Retired (f : ConvFtl) (cls : Nat → LineClass) (line : Nat) (c : LineClass) (lm : LineMgmt) :
    Prop where
  kind : c = .full ∨ c = .victim
  lines : lm.lines = f.lm.lines
  free : lm.freeLineList = f.lm.freeLineList
  lists : LineLists f.sp.blksPerPl lm (update cls line c)
  full : c = .full → (f.lm.lines line).vpc = f.sp.pgsPerLine
  victim : c = .victim → 0 < (f.lm.lines line).ipc

theorem Accounting.retireLine {S : Prop} (h : Accounting f cls freed fill) {io : IoType}
    (hfill : fill io = f.sp.pgsPerLine) (hS : S → (f.lm.lines (f.getWp io).curline).FitsInt) :
    Spec S (retireLine f (f.getWp io).curline) fun f' =>
      ∃ c lm, f' = { f with lm } ∧ Retired f cls (f.getWp io).curline c lm ∧
        (f.lm.lines (f.getWp io).curline).FitsInt := by
  have hin := h.wp.inLine io
  have hcls : cls (f.getWp io).curline = .current io := (h.wp.current io _ hin.curline).mpr rfl
  have hoff : (cls (f.getWp io).curline).OffList := hcls ▸ LineClass.current_offList io
  have hcol : cls (f.getWp io).curline ≠ .collected := by
    rw [hcls]
    cases io <;> decide
  have hvpc := h.counts.vpc _ hin.curline hcol
  have hipc := h.counts.ipc _ hin.curline hcol
  -- no page of the line is free
  have hsum : lineCount f.sp f.pages .valid (f.getWp io).curline +
      lineCount f.sp f.pages .invalid (f.getWp io).curline = f.sp.pgsPerLine := by
    refine h.geometry.lineCount_add fun ch hch lun hlun pg hpg => ?_
    rw [ne_eq, h.fillInv _ hin.curline _ hch _ hlun _ hpg, hcls, isFree_current, hfill]
    exact Nat.not_le_of_lt (h.geometry.order_lt hch hlun hpg)
  rw [← hvpc, ← hipc] at hsum
  have hn := h.geometry.lines_lt
  have hle := h.geometry.pgsPerLine_le
  unfold Nvmev.retireLine nvmevAssert
  dsimp only
  split
  · rename_i hfull
    have hint : (f.lm.lines (f.getWp io).curline).vpc < 2 ^ 31 := by
      unfold ulong at hfull
      split at hfull <;> omega
    have hvpc' : (f.lm.lines (f.getWp io).curline).vpc = f.sp.pgsPerLine := by
      rwa [ulong_of_lt hint] at hfull
    refine .bind (.ensure fun _ => by omega) fun _ hzero => .ret ⟨.full, _, rfl, ?_⟩
    exact ⟨⟨.inl rfl, rfl, rfl, h.lists.addFull hn hin.curline hoff, fun _ => hvpc',
      fun hc => by cases hc⟩, hint, by omega⟩
  · rename_i hfull
    have hne (hS' : S) : (f.lm.lines (f.getWp io).curline).vpc ≠ f.sp.pgsPerLine := by
      rwa [ulong_of_lt (hS hS').1] at hfull
    refine .bind (.ensure fun hS' => ?_) fun _ hsmall => ?_
    · have := (hS hS').1
      have := hne hS'
      omega
    refine .bind (.ensure fun hS' => ?_) fun _ hpos => .ret ⟨.victim, _, rfl, ?_⟩
    · have := (hS hS').2
      have := hne hS'
      omega
    · exact ⟨⟨.inr rfl, rfl, rfl, h.lists.addVictim hn hin.curline hoff hsmall.1,
        (fun hc => by cases hc), fun _ => hpos.1⟩, hsmall.1, hpos.2⟩

/-- What `advance_write_pointer` leaves: the classes and the fill of the lines can change, the
`space` and the pages do not. -/
structure Advanced (f : ConvFtl) (cls : Nat → LineClass) (freed : Nat → Nat → Prop)
    (fill : IoType → Nat) (f' : ConvFtl) (cls' : Nat → LineClass) (fill' : IoType → Nat) : Prop where
  ready : Ready f' cls' freed fill'
  space : space f' fill' = space f fill
  collected : ∀ l < f.sp.blksPerPl, cls' l = .collected ↔ cls l = .collected
  sp : f'.sp = f.sp
  cp : f'.cp = f.cp
  pages : f'.pages = f.pages
  maptbl : f'.maptbl = f.maptbl
  rmap : f'.rmap = f.rmap
  wfc : f'.wfc = f.wfc
  issued : f'.issued = f.issued

/-- Where `advance_write_pointer` goes: on in its line, or from its last page to the first page of the
first free line. -/
inductive Turn (f : ConvFtl) (io : IoType) (f' : ConvFtl) : Prop where
  | page (hcur : (f'.getWp io).curline = (f.getWp io).curline)
    (hplace : (f'.getWp io).place f.sp = (f.getWp io).place f.sp + 1) (hlm : f'.lm = f.lm)
  | line (hend : (f.getWp io).place f.sp + 1 = f.sp.pgsPerLine)
    (hint : (f.lm.lines (f.getWp io).curline).FitsInt)
    (hfree : f.lm.freeLineList = (f'.getWp io).curline :: f'.lm.freeLineList)
    (hplace : (f'.getWp io).place f.sp = 0) (hlines : f'.lm.lines = f.lm.lines)

/-- A step of the write pointer of `io`: the other one and the blocks stay. -/
structure Turned (f : ConvFtl) (io : IoType) (f' : ConvFtl) : Prop where
  turn : Turn f io f'
  others : ∀ io' ≠ io, f'.getWp io' = f.getWp io'
  blocks : f'.blocks = f.blocks

/-- The classes after the line of the write pointer of `io` is retired and the free line `l` taken:
lines in the two lists. -/
theorem takeLine_cls {io : IoType} {line l x : Nat} {c d : LineClass} (hd : d = .full ∨ d = .victim)
    (hx : update (update cls line c) l (.current io) x = d) : (x = line ∧ c = d) ∨ cls x = d := by
  by_cases hxl : x = l
  · subst hxl
    rw [update_self] at hx
    subst hx
    obtain hd | hd := hd <;> cases io <;> cases hd
  rw [update_of_ne hxl] at hx
  by_cases hxc : x = line
  · subst hxc
    rw [update_self] at hx
    exact .inl ⟨rfl, hx⟩
  · rw [update_of_ne hxc] at hx
    exact .inr hx

section TakeLine

variable (h : Accounting f cls freed fill) {io : IoType} (hfill : fill io = f.sp.pgsPerLine)
  {c : LineClass} {lm : LineMgmt} (hr : Retired f cls (f.getWp io).curline c lm) {l : Nat}
  (hl : l < f.sp.blksPerPl) (hfree : cls l = .free)

include h hr hl hfree

omit hl in
theorem Accounting.takeLine_collected (x : Nat) :
    update (update cls (f.getWp io).curline c) l (.current io) x = .collected ↔
      cls x = .collected := by
  have hcls : cls (f.getWp io).curline = .current io :=
    (h.wp.current io _ (h.wp.inLine io).curline).mpr rfl
  have hretired (x : Nat) : update cls (f.getWp io).curline c x = .collected ↔ cls x = .collected :=
    update_class_of_ne (by obtain rfl | rfl := hr.kind <;> decide) (by rw [hcls]; cases io <;> decide)
  refine (update_class_of_ne (by cases io <;> decide) ?_).trans (hretired x)
  rw [ne_eq, hretired, hfree]
  decide

theorem Accounting.takeLine_current (io' : IoType) {x : Nat} (hx : x < f.sp.blksPerPl) :
    update (update cls (f.getWp io).curline c) l (.current io) x = .current io' ↔
      x = if io' = io then l else (f.getWp io').curline := by
  have hcls (io : IoType) : cls (f.getWp io).curline = .current io :=
    (h.wp.current io _ (h.wp.inLine io).curline).mpr rfl
  have hne : l ≠ (f.getWp io).curline := by
    rintro rfl
    rw [hcls] at hfree
    cases io <;> cases hfree
  have hne' (io' : IoType) : x = l → x ≠ (f.getWp io').curline := by
    rintro rfl rfl
    rw [hcls] at hfree
    cases io' <;> cases hfree
  have hcur : LineClass.current io = .current io' ↔ io' = io := by
    cases io <;> cases io' <;> decide
  by_cases hxl : x = l
  · have := hne' io' hxl
    subst hxl
    rw [update_self, hcur]
    split <;> simp_all
  rw [update_of_ne hxl]
  by_cases hxc : x = (f.getWp io).curline
  · subst hxc
    rw [update_self]
    refine iff_of_false ?_ ?_
    · obtain rfl | rfl := hr.kind <;> cases io' <;> decide
    · split
      · exact hxl
      · rename_i hio
        intro he
        have := hcls io
        rw [he, hcls] at this
        exact hio (hcur.mp this.symm)
  · rw [update_of_ne hxc, h.wp.current io' x hx]
    split
    · rename_i hio
      subst hio
      exact iff_of_false hxc hxl
    · exact Iff.rfl

include hfill

theorem Accounting.takeLine_fill : FillInv f (update (update cls (f.getWp io).curline c) l (.current io))
    freed (update fill io 0) := by
  have hcls : cls (f.getWp io).curline = .current io :=
    (h.wp.current io _ (h.wp.inLine io).curline).mpr rfl
  intro x hx ch hch lun hlun pg hpg
  rw [h.fillInv x hx ch hch lun hlun pg hpg]
  by_cases hxl : x = l
  · subst hxl
    rw [update_self, isFree_current, update_self, hfree]
    exact iff_of_true trivial (Nat.zero_le _)
  rw [update_of_ne hxl]
  by_cases hxc : x = (f.getWp io).curline
  · subst hxc
    rw [update_self, hcls, isFree_current, hfill]
    have hlt := h.geometry.order_lt hch hlun hpg
    obtain rfl | rfl := hr.kind <;> exact iff_of_false (Nat.not_le_of_lt hlt) id
  · rw [update_of_ne hxc, isFree_update]
    exact fun he => hxc ((h.wp.current io x hx).mp he)

/-- The line of the write pointer of `io` is retired and the free line `l` taken. -/
theorem Accounting.takeLine (hother : ∀ io' ≠ io, (f.getWp io').place f.sp = fill io') {f' : ConvFtl}
    (hsp : f'.sp = f.sp) (hpages : f'.pages = f.pages) (hblocks : f'.blocks = f.blocks)
    (hlines : f'.lm.lines = f.lm.lines)
    (hlists : LineLists f.sp.blksPerPl f'.lm
      (update (update cls (f.getWp io).curline c) l (.current io)))
    (hwp : f'.getWp io = { curline := l, blk := l })
    (hwpo : ∀ io' ≠ io, f'.getWp io' = f.getWp io') :
    Ready f' (update (update cls (f.getWp io).curline c) l (.current io)) freed (update fill io 0) := by
  have hcounts : LineCounts f (update (update cls (f.getWp io).curline c) l (.current io)) := by
    have hcol := h.takeLine_collected hr hfree
    refine ⟨fun x hx hc => h.counts.vpc x hx (mt (hcol x).mpr hc),
      fun x hx hc => h.counts.ipc x hx (mt (hcol x).mpr hc), fun x hx hc => ?_, fun x hx hc => ?_⟩
    · obtain ⟨he, hcd⟩ | hcx := takeLine_cls (.inl rfl) hc
      · rw [he]
        exact hr.full hcd
      · exact h.counts.full x hx hcx
    · obtain ⟨he, hcd⟩ | hcx := takeLine_cls (.inr rfl) hc
      · rw [he]
        exact hr.victim hcd
      · exact h.counts.victim x hx hcx
  have hin := h.wp.inLine io
  refine ⟨⟨hsp ▸ h.geometry, h.nand.congr hsp hpages hblocks,
    (h.takeLine_fill hfill hr hl hfree).congr hsp hpages, hcounts.congr hsp hpages hlines,
    hsp ▸ hlists, fun io' => ?_, fun io' x hx => ?_⟩, fun io' => ?_⟩
  · rw [hsp]
    by_cases he : io' = io
    · subst he
      rw [hwp]
      exact ⟨hl, rfl, rfl, Nat.zero_lt_of_lt hin.ch, Nat.zero_lt_of_lt hin.lun, Nat.zero_lt_of_lt hin.pg⟩
    · rw [hwpo io' he]
      exact h.wp.inLine io'
  · rw [hsp] at hx
    rw [h.takeLine_current hr hl hfree io' hx]
    by_cases he : io' = io
    · subst he
      rw [if_pos rfl, hwp]
    · rw [if_neg he, hwpo io' he]
  · rw [hsp]
    by_cases he : io' = io
    · subst he
      rw [hwp, update_self]
      simp [WritePointer.place, order]
    · rw [hwpo io' he, update_of_ne he]
      exact hother io' he

end TakeLine

theorem Accounting.nextLine {S : Prop} (h : Accounting f cls freed fill) {io : IoType}
    (hend : (f.getWp io).place f.sp + 1 = f.sp.pgsPerLine) (hfill : fill io = f.sp.pgsPerLine)
    (hother : ∀ io' ≠ io, (f.getWp io').place f.sp = fill io')
    (hS : S → (f.lm.lines (f.getWp io).curline).FitsInt ∧ f.lm.freeLineList ≠ []) :
    Spec S (nextLine f io) fun f' =>
      ∃ cls' fill', Advanced f cls freed fill f' cls' fill' ∧ Turned f io f' := by
  have hin := h.wp.inLine io
  unfold Nvmev.nextLine nvmevAssert checkAddr nvmevAssert
  dsimp only
  refine (h.retireLine hfill fun hS' => (hS hS').1).bind ?_
  rintro f₁ ⟨c, lm, rfl, hr, hint⟩
  refine .bind (.ensure fun _ => by rw [hin.blk]; exact hin.curline) fun _ _ => ?_
  dsimp only
  cases hls : lm.freeLineList with
  | nil =>
    rw [show lm.getNextFreeLine = none by unfold LineMgmt.getNextFreeLine; rw [hls]]
    refine .error fun hS' => (hS hS').2 ?_
    rw [← hr.free, hls]
  | cons l ls =>
    have hl : l < f.sp.blksPerPl ∧ update cls (f.getWp io).curline c l = .free :=
      (hr.lists.mem_free l).mp (by simp [hls])
    have hfree : cls l = .free := by
      have hl := hl.2
      by_cases he : l = (f.getWp io).curline
      · rw [he, update_self] at hl
        obtain rfl | rfl := hr.kind <;> cases hl
      · rwa [update_of_ne he] at hl
    obtain ⟨hnext, hlists⟩ := hr.lists.getNextFreeLine h.geometry.lines_lt hls
      (LineClass.current_offList io)
    rw [hnext]
    dsimp only
    refine .bind (.ensure fun _ => hl.1) fun _ _ => .bind (.ensure fun _ => hin.pl) fun _ hpl => ?_
    refine .ret ⟨update (update cls (f.getWp io).curline c) l (.current io), update fill io 0, ?_⟩
    obtain ⟨hsp, hcp, hpages, hblocks, hmap, hrmap, hlm, hwfc, hissued⟩ := setWp_eq
      { f with lm := { lm with freeLineList := ls, freeLineCnt := lm.freeLineList.length - 1 } }
      { curline := l, blk := l, pl := (f.getWp io).pl } io
    have hlines := (congrArg (·.lines) hlm).trans hr.lines
    have hothers : ∀ io' ≠ io, (ConvFtl.setWp { f with
        lm := { lm with freeLineList := ls, freeLineCnt := lm.freeLineList.length - 1 } }
        { curline := l, blk := l, pl := (f.getWp io).pl } io).getWp io' = f.getWp io' := by
      intro io' hio
      rw [getWp_setWp_of_ne _ _ hio]
      cases io' <;> rfl
    refine ⟨⟨h.takeLine hfill hr hl.1 hfree hother hsp hpages hblocks hlines ?_ ?_ hothers, ?_,
      fun x _ => h.takeLine_collected hr hfree x, hsp, hcp, hpages, hmap, hrmap, hwfc, hissued⟩,
      .line hend hint ?_ ?_ hlines, hothers, hblocks⟩
    · rw [hlm]
      exact hlists
    · rw [getWp_setWp_self, hpl]
    · unfold space
      rw [hsp, hlm, ← hr.free, hls]
      dsimp only
      rw [List.length_cons, Nat.add_mul]
      cases io
      · rw [update_self, update_of_ne (by decide), hfill]
        omega
      · rw [update_self, update_of_ne (by decide), hfill]
        omega
    · rw [getWp_setWp_self, hlm, ← hr.free, hls]
    · rw [getWp_setWp_self]
      simp [WritePointer.place, order]

/-- What `advance_write_pointer` does: on to the next page of the line, or on from its last page. -/
inductive Moves (f : ConvFtl) (io : IoType) : Except Bug ConvFtl → Prop where
  | next {wp : WritePointer} (hin : InLine f.sp wp) (hcur : wp.curline = (f.getWp io).curline)
    (hplace : wp.place f.sp = (f.getWp io).place f.sp + 1) : Moves f io (.ok (f.setWp wp io))
  | last (hplace : (f.getWp io).place f.sp + 1 = f.sp.pgsPerLine) : Moves f io (nextLine f io)

theorem LineGeometry.advanceWritePointer (g : LineGeometry f.sp) {io : IoType}
    (hin : InLine f.sp (f.getWp io)) : Moves f io (advanceWritePointer f io) := by
  have ho := g.oneshot
  obtain ⟨n, hblk⟩ := g.dvd
  have hch := hin.ch
  have hlun := hin.lun
  have hpg := hin.pg
  unfold Nvmev.advanceWritePointer checkAddr nvmevAssert
  dsimp only
  rw [ensure_of _ hin.pg, ok_bind]
  split
  · rename_i hmod
    have hne : (f.getWp io).pg + 1 ≠ f.sp.pgsPerBlk := by
      intro he
      rw [he, hblk, Nat.mul_mod_right] at hmod
      exact hmod rfl
    exact .next ⟨hin.curline, hin.blk, hin.pl, hin.ch, hin.lun, by dsimp only; omega⟩ rfl
      (order_next_pg hmod)
  rename_i hmod
  have hend : ((f.getWp io).pg + 1) % f.sp.pgsPerOneshotpg = 0 := not_not.mp hmod
  have hback : (f.getWp io).pg + 1 - f.sp.pgsPerOneshotpg < f.sp.pgsPerBlk := by omega
  have hle : f.sp.pgsPerOneshotpg ≤ (f.getWp io).pg + 1 :=
    Nat.le_of_dvd (Nat.succ_pos _) (Nat.dvd_of_mod_eq_zero hend)
  rw [ensure_of _ hin.ch, ok_bind]
  split
  · rename_i hne
    exact .next ⟨hin.curline, hin.blk, hin.pl, by dsimp only; omega, hin.lun, hback⟩ rfl
      (order_next_ch hend ho)
  rename_i hlastCh
  have hlastCh := not_not.mp hlastCh
  rw [ensure_of _ hin.lun, ok_bind]
  split
  · rename_i hne
    exact .next ⟨hin.curline, hin.blk, hin.pl, by dsimp only; omega, by dsimp only; omega, hback⟩ rfl
      (order_next_lun hend ho hlastCh)
  rename_i hlastLun
  have hlastLun := not_not.mp hlastLun
  rw [Nat.sub_add_cancel hle]
  split
  · rename_i hne
    exact .next ⟨hin.curline, hin.blk, hin.pl, by dsimp only; omega, by dsimp only; omega,
      by dsimp only; omega⟩ rfl (order_next_wordline hend ho hlastCh hlastLun)
  · rename_i hlastPg
    exact .last (g.order_last hend hlastCh hlastLun (not_not.mp hlastPg))

theorem advanceWritePointer_moves (g : Geometry f.sp) {io : IoType} (hin : InLine f.sp (f.getWp io)) :
    Moves f io (advanceWritePointer f io) := g.line.advanceWritePointer hin

/-- The accounting after a step inside a line. -/
theorem Accounting.readyWp (h : Accounting f cls freed fill) {io : IoType} {wp : WritePointer}
    (hwp : InLine f.sp wp) (hcur : wp.curline = (f.getWp io).curline) (hplace : wp.place f.sp = fill io)
    (hother : ∀ io' ≠ io, (f.getWp io').place f.sp = fill io') : Ready (f.setWp wp io) cls freed fill := by
  refine ⟨h.moveWp io hwp hcur, fun io' => ?_⟩
  rw [(setWp_eq f wp io).1]
  by_cases he : io' = io
  · subst he
    rw [getWp_setWp_self, hplace]
  · rw [getWp_setWp_of_ne f wp he]
    exact hother io' he

/-- `advance_write_pointer` after the page at the write pointer became valid. -/
theorem Accounting.advanceWritePointer {S : Prop} (h : Accounting f cls freed fill) {io : IoType}
    (hplace : (f.getWp io).place f.sp + 1 = fill io)
    (hother : ∀ io' ≠ io, (f.getWp io').place f.sp = fill io')
    (hS : S → fill io = f.sp.pgsPerLine →
      (f.lm.lines (f.getWp io).curline).FitsInt ∧ f.lm.freeLineList ≠ []) :
    Spec S (advanceWritePointer f io) fun f' =>
      ∃ cls' fill', Advanced f cls freed fill f' cls' fill' ∧ Turned f io f' := by
  have hmoves := advanceWritePointer_moves h.geometry (h.wp.inLine io)
  generalize Nvmev.advanceWritePointer f io = x at hmoves ⊢
  cases hmoves with
  | @next wp hwp hcur hnext =>
    obtain ⟨hsp, hcp, hpages, hblocks, hmap, hrmap, hlm, hwfc, hissued⟩ := setWp_eq f wp io
    refine .ret ⟨cls, fill, ⟨h.readyWp hwp hcur (hnext.trans hplace) hother, ?_, fun _ _ => Iff.rfl, hsp,
      hcp, hpages, hmap, hrmap, hwfc, hissued⟩, .page ?_ ?_ hlm,
      fun io' hio => getWp_setWp_of_ne f wp hio, hblocks⟩
    · unfold space
      rw [hsp, hlm]
    · rw [getWp_setWp_self, hcur]
    · rw [getWp_setWp_self, hnext]
  | last hend =>
    have hfill : fill io = f.sp.pgsPerLine := hplace.symm.trans hend
    exact h.nextLine hend hfill hother fun hS' => hS hS' hfill

end Nvmev
