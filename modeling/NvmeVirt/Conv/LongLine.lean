import NvmeVirt.Conv.Runs

/-!
# A line of more than `2 ^ 31` pages

The counters of a line are `int`. Writes of different logical pages into one line count up `vpc`, until
it is negative after `2 ^ 31` of them. `Filling` is the state after `n` writes.
-/

namespace Nvmev

open CInt Function Outcome Tally

section Page

variable {f : ConvFtl} {cls : Nat → LineClass} {freed : Nat → Nat → Prop} {fill : IoType → Nat} {lpn : Nat}

/-- `programPage` on a page that is not the last one of its line. -/
theorem Ready.programPage_next (h : Ready f cls freed fill) (io : IoType) (hlpn : lpn < f.sp.ttPgs)
    (hvpc : (f.lm.lines (f.getWp io).curline).vpc < 2 ^ 31) (hnext : fill io + 1 ≠ f.sp.pgsPerLine) :
    ∃ wp, Nvmev.programPage f io lpn = .ok ((f.getWp io).page,
        (validated (Nvmev.remapped f lpn (f.getWp io).page) (f.getWp io).page).setWp wp io) ∧
      Ready ((validated (Nvmev.remapped f lpn (f.getWp io).page) (f.getWp io).page).setWp wp io) cls freed
        (update fill io (fill io + 1)) := by
  have hacc := h.placed io lpn
  have hwp : (Nvmev.placed f io lpn).getWp io = f.getWp io := getWp_placed f io io lpn
  have hmoves := advanceWritePointer_moves hacc.geometry (hacc.wp.inLine io)
  have hrun : Spec True (Nvmev.programPage f io lpn) fun r =>
      ∃ wp, r = ((f.getWp io).page, (Nvmev.placed f io lpn).setWp wp io) ∧
        Ready ((Nvmev.placed f io lpn).setWp wp io) cls freed (update fill io (fill io + 1)) := by
    refine h.place_spec io (fun _ => hlpn) (fun _ => hvpc) fun _ _ => ?_
    generalize advanceWritePointer (Nvmev.placed f io lpn) io = x at hmoves ⊢
    cases hmoves with
    | @next wp hwpin hcur hplace =>
      refine .ret ⟨wp, rfl, hacc.readyWp hwpin hcur (hplace.trans ?_) fun io' hio => ?_⟩
      · rw [hwp, update_self, ← h.place io]
        rfl
      · rw [getWp_placed, update_of_ne hio]
        exact h.place io'
    | last hend =>
      rw [hwp] at hend
      exact absurd (h.place io ▸ hend) hnext
  obtain ⟨r, hr, wp, rfl, hready⟩ := hrun.total trivial
  exact ⟨wp, hr, hready⟩

end Page

/-! ## One page after the other -/

/-- A fresh FTL after writes of the logical pages below `n`, all of them into the first line. -/
structure Filling (sp : SsdParams) (n : Nat) (f : ConvFtl) : Prop where
  sp_eq : f.sp = sp
  ready : Ready f freshCls (fun _ _ => False) (update (fun _ => 0) .userIo n)
  valid : lineCount sp f.pages .valid 0 = n
  unmapped : ∀ l, n ≤ l → l < 2 ^ 31 → f.maptbl l = unmappedPpa
  credits : f.wfc.writeCredits + n = sp.pgsPerLine

theorem freshCls_zero : freshCls 0 = .current .userIo := rfl

section Filling

variable {sp : SsdParams} {f : ConvFtl} {n : Nat} (h : Filling sp n f)

include h

theorem Filling.wp_curline : (f.getWp .userIo).curline = 0 := by
  have hpos : 0 < f.sp.blksPerPl := Nat.lt_of_lt_of_le (by decide) h.ready.acc.geometry.five
  exact ((h.ready.acc.wp.current .userIo 0 hpos).mp freshCls_zero).symm

/-- The counter of the first line counts the writes. -/
theorem Filling.vpc : (f.lm.lines 0).vpc = n := by
  have hpos : 0 < f.sp.blksPerPl := Nat.lt_of_lt_of_le (by decide) h.ready.acc.geometry.five
  rw [h.ready.acc.counts.vpc 0 hpos (by decide), h.sp_eq, h.valid]

variable (hn : n < 2 ^ 31) (hline : 2 ^ 31 < sp.pgsPerLine) (hlt : sp.pgsPerLine < 2 ^ 32)
  (htt : 2 ^ 31 ≤ sp.ttPgs)

include hn hline hlt htt

theorem Filling.write : Spec True (convWritePage f n) fun r =>
    Spec True (checkAndRefillWriteCredit (consumeWriteCredit r.2)) fun f' =>
      Filling sp (n + 1) { f' with issued := [] } := by
  have hin := h.ready.acc.wp.inLine .userIo
  have hold : invalidateOldPage f n = .ok f := by
    unfold invalidateOldPage
    rw [h.unmapped n (Nat.le_refl _) hn, if_neg (by decide)]
    rfl
  have hlpn : n < f.sp.ttPgs := by
    rw [h.sp_eq]
    omega
  obtain ⟨wp, hpage, hready⟩ := h.ready.programPage_next .userIo hlpn
    (by rw [h.wp_curline, h.vpc]; exact hn) (by rw [h.sp_eq, update_self]; omega)
  have hfree := (h.ready.acc.validated .userIo (h.ready.place .userIo)).1
  rw [convWritePage_eq, hold, ok_bind, hpage]
  generalize hp : (f.getWp .userIo).page = p at hready hfree ⊢
  obtain ⟨hsp, hcp, hpages, -, hmap, -, -, hwfc, -⟩ := setWp_eq (validated (remapped f n p) p) wp .userIo
  generalize (validated (remapped f n p) p).setWp wp .userIo = f₁ at hready hsp hcp hpages hmap hwfc ⊢
  refine .ret ?_
  dsimp only
  obtain ⟨credits, hcredits, hconsume⟩ := consumeWriteCredit_eq f₁
  have hw := h.credits
  rw [hwfc] at hcredits
  have hleft : credits = f.wfc.writeCredits - 1 := hcredits (by change 0 < f.wfc.writeCredits; omega)
    (by change f.wfc.writeCredits < 2 ^ 32; omega)
  rw [hconsume]
  unfold checkAndRefillWriteCredit
  rw [if_neg (by dsimp only; omega)]
  rw [update_self, update_idem] at hready
  refine .ret ⟨hsp.trans h.sp_eq, hready.congr rfl rfl rfl rfl rfl rfl, ?_, fun l hl hl' => ?_, ?_⟩
  · have hcount := lineCount_update f.pages 0 hin.ch hin.lun hin.pg
      { status := .valid, nsecs := (f.pages p).nsecs } .valid
    have hat : pageAt 0 (f.getWp .userIo).ch (f.getWp .userIo).lun (f.getWp .userIo).pg = p := by
      rw [← hp, hin.onChip.eq_pageAt]
      exact congrArg (pageAt · _ _ _) h.wp_curline.symm
    rw [hat, hfree, h.sp_eq, h.valid] at hcount
    change lineCount sp f₁.pages .valid 0 = n + 1
    rw [hpages]
    exact hcount
  · change f₁.maptbl l = unmappedPpa
    rw [hmap]
    change update f.maptbl n p l = _
    rw [update_of_ne (by omega)]
    exact h.unmapped l (by omega) hl'
  · change credits + (n + 1) = sp.pgsPerLine
    omega

end Filling

/-- A namespace of one partition with a write buffer of `wb` bytes after writes of the logical pages
below `n`. -/
structure FillingNs (sp : SsdParams) (wb n : Nat) (ns : ConvNs Unit) : Prop where
  nrParts : ns.nrParts = 1
  size : ns.writeBuffer.size = wb
  remaining : ns.writeBuffer.remaining + 4096 * n = wb
  ftl : Filling sp n (ns.ftls 0)

/-- A write of the logical page `n`. -/
def pageWrite (n : Nat) : RwRequest := { cmd := { opcode := .write, slba := 8 * n, length := 7 } }

section Step

variable {sp : SsdParams} {wb n : Nat} {ns : ConvNs Unit} (h : FillingNs sp wb n ns) (hn : n < 2 ^ 31)

include h hn

theorem FillingNs.pages : startLpn ns (pageWrite n) = n ∧ endLpn ns (pageWrite n) = n := by
  have hsecs : (ns.ftls 0).sp.secsPerPg = 8 := h.ftl.ready.acc.geometry.secsPerPg
  have hblocks : (pageWrite n).cmd.nrLbas = 8 := rfl
  have hslba : (pageWrite n).cmd.slba = 8 * n := rfl
  constructor
  · unfold startLpn
    rw [hsecs, hslba, u64_of_lt (by omega)]
    omega
  · unfold endLpn
    rw [hsecs, hslba, hblocks, u64_of_lt (by omega)]
    omega

theorem FillingNs.accepts (hwb : 2 ^ 43 ≤ wb) (htt : 2 ^ 31 ≤ sp.ttPgs) : Accepts ns (pageWrite n) := by
  have hrem := h.remaining
  have hblocks : (pageWrite n).cmd.nrLbas = 8 := rfl
  refine ⟨?_, ?_⟩
  · rw [(h.pages hn).2, h.nrParts, h.ftl.sp_eq]
    omega
  · rw [hblocks]
    omega

variable (hwb : 2 ^ 43 ≤ wb) (hline : 2 ^ 31 < sp.pgsPerLine) (hlt : sp.pgsPerLine < 2 ^ 32)
  (htt : 2 ^ 31 ≤ sp.ttPgs)

include hline hlt htt

theorem FillingNs.loop (stime : Nat) {l : WriteLoop Unit} (hl : l.ftls = ns.ftls) :
    Spec True (forRange (endLpn ns (pageWrite n) + 1 - startLpn ns (pageWrite n)) l fun l i =>
      convWriteLpn (fun _ => .instant) ns.nrParts (pageWrite n).sqId stime l
        (startLpn ns (pageWrite n) + i)) fun l => Filling sp (n + 1) (l.ftls 0) := by
  obtain ⟨hstart, hend⟩ := h.pages hn
  rw [hend, hstart, Nat.add_sub_cancel_left, h.nrParts]
  refine Spec.forRange (I := fun i (l : WriteLoop Unit) => Filling sp (n + i) (l.ftls 0))
    (by rw [hl]; exact h.ftl) fun i hi l hl => ?_
  obtain rfl : i = 0 := by omega
  refine convWriteLpn_spec _ (Q := fun r => Spec True (checkAndRefillWriteCredit (consumeWriteCredit r.2))
    fun f' => Filling sp (n + 1) { f' with issued := [] }) ?_ fun ppa f hf => hf.mono fun f' hf' s' hs' => ?_
  · rw [Nat.mod_one, Nat.div_one]
    exact hl.write hn hline hlt htt
  · rw [hs'.ftls, Nat.mod_one, update_self]
    exact hf'

include hwb

theorem FillingNs.write {req : RwRequest} (hreq : req = pageWrite n) :
    Spec True (convWrite (fun _ => .instant) ns req) fun o => FillingNs sp wb (n + 1) o.ftl := by
  have hblocks : req.cmd.nrLbas = 8 := by
    rw [hreq]
    rfl
  refine (convWrite_spec _ (J := fun l => Filling sp (n + 1) (l.ftls 0)) (fun _ => ?_)
    fun _ stime l hl _ => ?_).mono ?_
  · rw [hblocks, h.size]
    omega
  · rw [hreq]
    exact h.loop hn hline hlt htt stime hl
  · intro o ho
    cases ho with
    | refused hno => exact absurd (hreq ▸ h.accepts hn hwb htt) hno
    | done _ l hl =>
      have hrem := h.remaining
      refine ⟨h.nrParts, h.size, ?_, hl⟩
      change ns.writeBuffer.remaining - req.cmd.nrLbas * 512 + 4096 * (n + 1) = _
      rw [hblocks]
      omega

end Step

theorem FillingNs.step {sp : SsdParams} {wb n : Nat} {s : ConvLogged Unit} (h : FillingNs sp wb n s.device.ns)
    (hn : n < 2 ^ 31) (hwb : 2 ^ 43 ≤ wb) (hline : 2 ^ 31 < sp.pgsPerLine)
    (hlt : sp.pgsPerLine < 2 ^ 32) (htt : 2 ^ 31 ≤ sp.ttPgs) :
    Spec True (s.step (fun _ => .instant) (.command (pageWrite n))) fun s =>
      FillingNs sp wb (n + 1) s.device.ns := by
  unfold ConvLogged.step
  refine .bind (Q := fun o => FillingNs sp wb (n + 1) o.ftl) ?_ fun o ho => .ret ho
  exact convProcNvmeIoCmd_spec _ (fun _ => h.write hn hwb hline hlt htt rfl) fun o hop => absurd rfl hop

/-- Writes of the first `n` logical pages. -/
def firstWrites (n : Nat) : List ConvEvent := (List.range n).map fun i => .command (pageWrite i)

theorem FillingNs.writes {sp : SsdParams} {wb : Nat} {s : ConvLogged Unit}
    (h : FillingNs sp wb 0 s.device.ns) (hwb : 2 ^ 43 ≤ wb) (hline : 2 ^ 31 < sp.pgsPerLine)
    (hlt : sp.pgsPerLine < 2 ^ 32) (htt : 2 ^ 31 ≤ sp.ttPgs) {n : Nat}
    (hn : n ≤ 2 ^ 31) :
    Spec True ((firstWrites n).foldlM (ConvLogged.step fun _ => .instant) s) fun s =>
      FillingNs sp wb n s.device.ns := by
  induction n with
  | zero => exact .ret h
  | succ n ih =>
    unfold firstWrites at ih ⊢
    rw [List.range_succ, List.map_append, List.foldlM_append]
    refine (ih (by omega)).bind fun s' hs' => ?_
    rw [List.map_singleton, List.foldlM_cons]
    exact (hs'.step (by omega) hwb hline hlt htt).bind fun s'' hs'' => .ret hs''

theorem FreshFtl.filling {cp : ConvParams} {sp : SsdParams} {raw f : ConvFtl} (h : FreshFtl cp sp raw f)
    (g : Geometry sp) (hlt : sp.pgsPerLine < 2 ^ 32) (htt : 2 ^ 31 ≤ sp.ttPgs) : Filling sp 0 f := by
  refine ⟨h.sp_eq, ?_, ?_, fun l _ hl => ?_, ?_⟩
  · have hready := h.ready g
    rwa [show (fun _ => 0 : IoType → Nat) = update (fun _ => 0) .userIo 0 from (update_eq_self _ _).symm]
      at hready
  · refine tally_eq_zero.mpr fun i _ => ?_
    rw [h.pages]
    rfl
  · rw [h.maptbl, fillLoop_apply, if_pos ⟨hl, by omega⟩]
  · rw [h.credits]
    exact u32_of_lt hlt

/-! ## The counter overflows -/

/-- 256 channels of 256 LUNs, with 64 blocks for each plane. -/
def SsdConfig.wide : SsdConfig :=
  { SsdConfig.samsung970Pro with
    nandChannels := 256, lunsPerNandCh := 256, blksPerPln := 64, globalWbSize := 2 ^ 44 }

/-- Its geometry with lines of 65536 blocks of 32776 pages. -/
def SsdParams.wide : SsdParams :=
  { secsz := 512, secsPerPg := 8, pgsz := 4096, pgsPerFlashpg := 8, flashpgsPerBlk := 4097
    pgsPerOneshotpg := 8, oneshotpgsPerBlk := 4097, pgsPerBlk := 32776, blksPerPl := 64, plsPerLun := 1
    lunsPerCh := 256, nchs := 256, cellMode := 2, writeUnitSize := 512, writeEarlyCompletion := true
    fw4kbRdLat := 21500, fwRdLat := 30490, pgsPerPl := 2097664, pgsPerLun := 2097664
    pgsPerCh := 537001984, ttPgs := 137472507904, blksPerLun := 64, pgsPerLine := 2148007936
    blksPerLine := 65536, ttLines := 64, ttLuns := 65536, writeBufferSize := 2 ^ 44 }

/-- The bytes of the namespace: 64 lines. -/
def wideSize : Nat := 563087392374784

theorem convGeometry_wide : ConvGeometry .wide 107 1 wideSize .wide := by
  refine ⟨?_, rfl, ?_, ?_, ?_⟩
  · decide +kernel
  · constructor <;> decide
  · constructor <;> decide
  · decide +kernel

/-- After the first `2 ^ 31` pages are written, `vpc` of the first line is negative. -/
theorem conv_line_vpc_negative : ConvGeometry .wide 107 1 wideSize .wide ∧
    (∀ e ∈ firstWrites (2 ^ 31), e.OnNs (nsSize wideSize 107)) ∧
    Total (convRun (fun _ => .instant) .wide 107 1 wideSize (fun _ => .blank) () (firstWrites (2 ^ 31)))
      fun s => ¬ LineAccounting (s.device.ns.ftls 0) := by
  refine ⟨convGeometry_wide, fun e he => ?_, ?_⟩
  · obtain ⟨i, hi, rfl⟩ := List.mem_map.mp he
    have hlt := List.mem_range.mp hi
    have hsize : 2 ^ 43 ≤ nsSize wideSize 107 := by decide +kernel
    intro _
    change (8 * i + 8) * 512 ≤ _
    omega
  obtain ⟨ns, hns, hparts, -, hbuffer, hftls⟩ := convGeometry_wide.init_fresh (fun _ => .blank) ()
  have hfresh := hftls 0 (by decide)
  have hfilling : FillingNs .wide (2 ^ 44) 0 ns := by
    refine ⟨hparts, ?_, ?_, hfresh.filling convGeometry_wide.geometry (by decide) (by decide)⟩
    · rw [hbuffer]
      rfl
    · rw [hbuffer]
      rfl
  have hrun := FillingNs.writes (s := { device := { ns } }) hfilling (by decide) (by decide) (by decide)
    (by decide) (n := 2 ^ 31) (Nat.le_refl _)
  unfold convRun
  rw [hns, ok_bind]
  refine (hrun.total trivial).mono fun s hs hacc => ?_
  have hvpc := hacc.vpc 0 (by rw [hs.ftl.sp_eq]; decide)
  rw [hs.ftl.vpc, hs.ftl.sp_eq, hs.ftl.valid] at hvpc
  exact absurd hvpc (by decide)

end Nvmev
