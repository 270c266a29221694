import NvmeVirt.Conv.Fresh
import NvmeVirt.Conv.WriteBuffer

/-!
# Runs of a conventional namespace

What holds after any sequence of commands and completions from `conv_init_namespace` on.

* `conv_maps_refine_written`: the maps refine the set of the logical pages that were written.
* `conv_writes_succeed`: no command fails, and the credits do not wrap.
* `conv_line_accounting`: the counters and lists of the lines count and hold what they should.
-/

namespace Nvmev

open CInt Function Outcome Tally

variable {τ : Type}

/-- A run of a fresh namespace, with the log of the writes. -/
def convRun (B : Nat → PerfModel τ) (cfg : SsdConfig) (pbaPcent nrParts size : Nat)
    (raw : Nat → ConvFtl) (perf : τ) (events : List ConvEvent) : Except Bug (ConvLogged τ) := do
  let ns ← convInitNamespace cfg pbaPcent nrParts size raw perf
  events.foldlM (ConvLogged.step B) { device := { ns } }

section Run

variable {S M : Prop} {cfg : SsdConfig} {pbaPcent nrParts size m : Nat} {sp : SsdParams}
  (h : ConvGeometry cfg pbaPcent nrParts size sp) (hSM : S → M)
  (hm : M → m = min sp.ttPgs (2 ^ 31) ∧ hostLpns (nsSize size pbaPcent) nrParts ≤ 2 ^ 31)
  (hsmall : S → sp.pgsPerLine < 2 ^ 31)

include h hSM hm hsmall

theorem ConvGeometry.limits : Limits S M sp m (hostLpns (nsSize size pbaPcent) nrParts) := by
  have hle := h.hostLpns_le
  refine ⟨hSM, hsmall, ?_, fun hM => ?_⟩
  · rw [← h.geometry.lines]
    exact h.lpns
  · have := hm hM
    omega

theorem ConvGeometry.run (B : Nat → PerfModel τ) (raw : Nat → ConvFtl) (perf : τ)
    {events : List ConvEvent} (hon : ∀ e ∈ events, e.OnNs (nsSize size pbaPcent))
    (hfits : S → ∀ e ∈ events, e.FitsBuffer sp.writeBufferSize) :
    Spec S (convRun B cfg pbaPcent nrParts size raw perf events)
      (NsInv S M sp m nrParts (nsSize size pbaPcent) sp.writeBufferSize) := by
  have hlim := h.limits hSM hm hsmall
  obtain ⟨ns, hns, hinit⟩ := h.init (m := m) (fun hM => by have := hm hM; omega) hsmall raw perf
  unfold convRun
  rw [hns, ok_bind]
  exact .foldlM hinit fun s hs e he => hs.step B hlim (hon e he) fun hS => hfits hS e he

end Run

/-! ## The maps -/

/-- The maps of an FTL on the logical pages below `m`. -/
structure MapsRefine (f : ConvFtl) (m : Nat) (written : Nat → Prop) : Prop where
  mapped : ∀ lpn < m, mappedPpa (f.maptbl lpn) = true ↔ written lpn
  injective : ∀ lpn < m, ∀ lpn' < m, mappedPpa (f.maptbl lpn) = true →
    f.maptbl lpn = f.maptbl lpn' → lpn = lpn'
  page : ∀ lpn < m, mappedPpa (f.maptbl lpn) = true → validPpa f.sp (f.maptbl lpn) = true ∧
    (f.pages (f.maptbl lpn).page).status = .valid ∧ getRmapEnt f (f.maptbl lpn) = .ok lpn
  lpn : ∀ p, validPpa f.sp p = true → p.page = p → (f.pages p).status = .valid →
    ∃ lpn < m, getRmapEnt f p = .ok lpn ∧ f.maptbl lpn = p

theorem MapInv.refine {f : ConvFtl} {m : Nat} {written : Nat → Prop} (g : Geometry f.sp)
    (h : MapInv f m written (fun _ => False) fun _ => False) : MapsRefine f m written := by
  refine ⟨fun l hl => h.mapped l hl id, fun l hl l' hl' hmap he =>
    h.injective hl hl' id id hmap he, fun l hl hmap => ?_, fun p hv hp hs => ?_⟩
  · obtain ⟨hon, hs, -, hr⟩ := h.page l hl id hmap
    rw [hon.page, getRmapEnt_eq g hon, hr]
    exact ⟨hon.valid g, hs, rfl⟩
  · have hon := onChip_of_validPpa g hv
    rw [hp] at hon
    obtain ⟨hlt, -, hmap⟩ := h.lpn p hon hs id
    exact ⟨_, hlt, getRmapEnt_eq g hon, hmap⟩

/-- With at most `2 ^ 31` logical pages of a partition that the host can address: after every command, the
logical pages that are mapped are those that the accepted writes covered. This holds of the pages whose
entries `conv_init_ftl` initializes. -/
theorem conv_maps_refine_written (B : Nat → PerfModel τ) {cfg : SsdConfig}
    {pbaPcent nrParts size : Nat} {sp : SsdParams} (h : ConvGeometry cfg pbaPcent nrParts size sp)
    (hlpns : hostLpns (nsSize size pbaPcent) nrParts ≤ 2 ^ 31) (raw : Nat → ConvFtl) (perf : τ)
    (events : List ConvEvent) (hon : ∀ e ∈ events, e.OnNs (nsSize size pbaPcent)) :
    Partial (convRun B cfg pbaPcent nrParts size raw perf events) fun s => ∀ p < nrParts,
      MapsRefine (s.device.ns.ftls p) (min sp.ttPgs (2 ^ 31)) fun lpn => s.covered (lpn * nrParts + p) := by
  refine (h.run (S := False) (M := True) False.elim (fun _ => ⟨rfl, hlpns⟩) False.elim B raw perf hon
    False.elim).post.mono fun s hs p hp => ?_
  obtain ⟨-, cls, fill, hidle, -⟩ := hs.parts p hp
  exact (hidle.map trivial).refine hidle.ready.acc.geometry

/-- The configuration `SAMSUNG_970PRO` with 64 blocks for each plane. -/
def SsdConfig.pro64 : SsdConfig := { SsdConfig.samsung970Pro with blksPerPln := 64 }

/-- Its geometry with four partitions in 4 MiB. -/
def SsdParams.pro64 : SsdParams :=
  { secsz := 512, secsPerPg := 8, pgsz := 4096, pgsPerFlashpg := 8, flashpgsPerBlk := 1
    pgsPerOneshotpg := 8, oneshotpgsPerBlk := 1, pgsPerBlk := 8, blksPerPl := 64, plsPerLun := 1
    lunsPerCh := 2, nchs := 2, cellMode := 2, writeUnitSize := 512, writeEarlyCompletion := true
    fw4kbRdLat := 21500, fwRdLat := 30490, pgsPerPl := 512, pgsPerLun := 512, pgsPerCh := 1024
    ttPgs := 2048, blksPerLun := 64, pgsPerLine := 32, blksPerLine := 4, ttLines := 64, ttLuns := 4
    writeBufferSize := 2 ^ 20 }

theorem convGeometry_pro64 : ConvGeometry .pro64 107 4 (2 ^ 22) .pro64 := by
  refine ⟨?_, rfl, ?_, ?_, ?_⟩
  · decide +kernel
  · constructor <;> decide
  · constructor <;> decide
  · decide +kernel

/-- A page that is written twice. -/
theorem conv_maps_refine_written_pro64 :
    Total (convRun (fun _ => .instant) .pro64 107 4 (2 ^ 22) (fun _ => .blank) ()
      [convWriteBlocks 0 7, convWriteBlocks 0 7]) fun s => ∀ p < 4,
      MapsRefine (s.device.ns.ftls p) (min SsdParams.pro64.ttPgs (2 ^ 31)) fun lpn =>
        s.covered (lpn * 4 + p) := by
  have hrun : Total (convRun (fun _ => .instant) .pro64 107 4 (2 ^ 22) (fun _ => .blank) ()
      [convWriteBlocks 0 7, convWriteBlocks 0 7]) fun s => s.writes.length = 2 := by decide +kernel
  obtain ⟨s, hs, -⟩ := hrun
  refine ⟨s, hs, conv_maps_refine_written (fun _ => .instant) convGeometry_pro64 ?_ _ () _ ?_ s hs⟩
  · decide +kernel
  · decide +kernel

/-- The configuration `SAMSUNG_970PRO`. -/
def SsdConfig.pro8192 : SsdConfig := { SsdConfig.samsung970Pro with blksPerPln := 8192 }

/-- Its geometry with one partition in 16 TiB. -/
def SsdParams.pro16TiB : SsdParams :=
  { secsz := 512, secsPerPg := 8, pgsz := 4096, pgsPerFlashpg := 8, flashpgsPerBlk := 4096
    pgsPerOneshotpg := 8, oneshotpgsPerBlk := 4096, pgsPerBlk := 32768, blksPerPl := 8192
    plsPerLun := 1, lunsPerCh := 2, nchs := 8, cellMode := 2, writeUnitSize := 512
    writeEarlyCompletion := true, fw4kbRdLat := 21500, fwRdLat := 30490, pgsPerPl := 2 ^ 28
    pgsPerLun := 2 ^ 28, pgsPerCh := 2 ^ 29, ttPgs := 2 ^ 32, blksPerLun := 8192
    pgsPerLine := 2 ^ 19, blksPerLine := 16, ttLines := 8192, ttLuns := 16, writeBufferSize := 2 ^ 20 }

theorem convGeometry_pro16TiB : ConvGeometry .pro8192 107 1 (2 ^ 44) .pro16TiB := by
  refine ⟨?_, rfl, ?_, ?_, ?_⟩
  · decide +kernel
  · constructor <;> decide
  · constructor <;> decide
  · decide +kernel

/-- Memory that is zero: in a mapping table, every logical page is at the first page. -/
def ConvFtl.zeroed : ConvFtl := { ConvFtl.blank with maptbl := fun _ => pageAt 0 0 0 0 }

/-- After a flush, the logical page `2 ^ 31` is mapped, which was not written. -/
theorem conv_maps_uninitialized : ConvGeometry .pro8192 107 1 (2 ^ 44) .pro16TiB ∧
    Total (convRun (fun _ => .instant) .pro8192 107 1 (2 ^ 44) (fun _ => .zeroed) ()
      [.command { cmd := { opcode := .flush, slba := 0, length := 0 } }]) fun s =>
      ¬ MapsRefine (s.device.ns.ftls 0) (hostLpns (nsSize (2 ^ 44) 107) 1) fun lpn =>
        s.covered (lpn * 1 + 0) := by
  refine ⟨convGeometry_pro16TiB, ?_⟩
  obtain ⟨ns, hns, -, -, -, hftls⟩ :=
    convGeometry_pro16TiB.init_fresh (fun _ => .zeroed) ()
  have hfresh := hftls 0 (by decide)
  unfold convRun
  rw [hns, ok_bind]
  refine ⟨_, rfl, fun h => ?_⟩
  have hmapped : mappedPpa ((ns.ftls 0).maptbl (2 ^ 31)) = true := by
    rw [hfresh.maptbl, fillLoop_apply, if_neg (by decide)]
    decide
  obtain ⟨cmd, hcmd, -⟩ := (h.mapped (2 ^ 31) (by decide +kernel)).mp hmapped
  cases hcmd

/-! ## Credits -/

/-- Every partition has credits, and some to refill. -/
def HasCredits (nrParts : Nat) (ftls : Nat → ConvFtl) : Prop :=
  ∀ p < nrParts, 0 < (ftls p).wfc.writeCredits ∧ 0 < (ftls p).wfc.creditsToRefill

theorem Parts.hasCredits {S M : Prop} {sp : SsdParams} {m nrParts : Nat} {covered : Nat → Prop}
    {ftls : Nat → ConvFtl} (h : Parts S M sp m nrParts covered ftls) (hS : S) : HasCredits nrParts ftls := by
  intro p hp
  obtain ⟨-, cls, fill, -, hfunded⟩ := h p hp
  exact ⟨(hfunded hS).pos, (hfunded hS).refill_pos⟩

/-- With at most `2 ^ 31` logical pages of a partition that the host can address and less than `2 ^ 31`
pages in a line: every command returns, so that no assertion fails and the free lines do not run out.
There are credits before every page that `conv_write` consumes one for, also inside the next command, so
that they do not wrap. -/
theorem conv_writes_succeed (B : Nat → PerfModel τ) {cfg : SsdConfig} {pbaPcent nrParts size : Nat}
    {sp : SsdParams} (h : ConvGeometry cfg pbaPcent nrParts size sp)
    (hlpns : hostLpns (nsSize size pbaPcent) nrParts ≤ 2 ^ 31) (hline : sp.pgsPerLine < 2 ^ 31)
    (raw : Nat → ConvFtl) (perf : τ) (events : List ConvEvent)
    (hon : ∀ e ∈ events, e.OnNs (nsSize size pbaPcent))
    (hfits : ∀ e ∈ events, e.FitsBuffer sp.writeBufferSize) :
    Total (convRun B cfg pbaPcent nrParts size raw perf events) fun s =>
      ∀ req : RwRequest, OnNs (nsSize size pbaPcent) req.cmd → ∀ (stime : Nat) (l : WriteLoop τ),
        l.ftls = s.device.ns.ftls →
        ∀ k ≤ endLpn s.device.ns req + 1 - startLpn s.device.ns req,
          Total (forRange k l fun l i =>
            convWriteLpn B nrParts req.sqId stime l (startLpn s.device.ns req + i)) fun l' =>
            HasCredits nrParts l'.ftls := by
  have hlim : Limits True True sp (min sp.ttPgs (2 ^ 31)) (hostLpns (nsSize size pbaPcent) nrParts) :=
    h.limits id (fun _ => ⟨rfl, hlpns⟩) fun _ => hline
  refine ((h.run (S := True) (M := True) id (fun _ => ⟨rfl, hlpns⟩) (fun _ => hline) B raw perf hon
    fun _ => hfits).total trivial).mono fun s hs req hreq stime l hl k hk => ?_
  exact ((hs.loop B hlim hreq hl stime hk).total trivial).mono fun l' hl' => hl'.hasCredits trivial

/-- The same run: the pages of a further write have credits. -/
theorem conv_writes_succeed_pro64 :
    Total (convRun (fun _ => .instant) .pro64 107 4 (2 ^ 22) (fun _ => .blank) ()
      [convWriteBlocks 0 7, convWriteBlocks 0 7]) fun s =>
      ∀ req : RwRequest, OnNs (nsSize (2 ^ 22) 107) req.cmd → ∀ (stime : Nat) (l : WriteLoop Unit),
        l.ftls = s.device.ns.ftls →
        ∀ k ≤ endLpn s.device.ns req + 1 - startLpn s.device.ns req,
          Total (forRange k l fun l i => convWriteLpn (fun _ => .instant) 4 req.sqId stime l
            (startLpn s.device.ns req + i)) fun l' => HasCredits 4 l'.ftls := by
  refine conv_writes_succeed (fun _ => .instant) convGeometry_pro64 ?_ (by decide) _ () _ ?_ ?_
  · decide +kernel
  · decide +kernel
  · decide +kernel

/-- `conv_write` on a logical page that is mapped to a free page. -/
theorem convWritePage_free {f : ConvFtl} (g : Geometry f.sp) {lpn : Nat} (hp : OnChip f.sp (f.maptbl lpn))
    (hs : (f.pages (f.maptbl lpn)).status = .free) :
    convWritePage f lpn = .error (.assertion .markPageInvalid) := by
  have hmark : markPageInvalid f (f.maptbl lpn) = .error (.assertion .markPageInvalid) := by
    have hassert : nvmevAssert ((f.pages (f.maptbl lpn)).status = .valid) .markPageInvalid =
        .error (.assertion .markPageInvalid) := if_neg (by rw [hs]; decide)
    unfold markPageInvalid
    rw [hp.inBounds g, ok_bind, hp.page]
    dsimp only
    rw [hassert]
    rfl
  rw [convWritePage_eq]
  unfold invalidateOldPage
  rw [if_pos hp.mapped, hmark]
  rfl

/-- A write of one page that fails. -/
theorem convWrite_error (B : Nat → PerfModel τ) {ns : ConvNs τ} {req : RwRequest} {e : Bug}
    (hacc : Accepts ns req) (hfits : req.cmd.nrLbas * 512 ≤ ns.writeBuffer.size)
    (hone : endLpn ns req = startLpn ns req)
    (hpage : convWritePage (ns.ftls (startLpn ns req % ns.nrParts)) (startLpn ns req / ns.nrParts) =
      .error e) : convWrite B ns req = .error e := by
  have hle := nrLbas_le req.cmd
  have hloop (stime : Nat) {s : WriteLoop τ} (hs : s.ftls = ns.ftls) :
      forRange (endLpn ns req + 1 - startLpn ns req) s (fun s i =>
        convWriteLpn B ns.nrParts req.sqId stime s (startLpn ns req + i)) = .error e := by
    have hturn : convWriteLpn B ns.nrParts req.sqId stime s (startLpn ns req + 0) = .error e := by
      unfold convWriteLpn
      dsimp only
      rw [hs, Nat.add_zero, hpage]
      rfl
    rw [hone, Nat.add_sub_cancel_left]
    unfold forRange
    rw [List.range_one, List.foldlM_cons, hturn]
    rfl
  have hbuf : bufferAllocate ns.writeBuffer (req.cmd.nrLbas * 512) = .ok (req.cmd.nrLbas * 512,
      { ns.writeBuffer with remaining := ns.writeBuffer.remaining - req.cmd.nrLbas * 512 }) := by
    unfold bufferAllocate nvmevAssert
    rw [ensure_of _ hfits, ok_bind, if_neg (Nat.not_lt_of_le hacc.room)]
    dsimp only
    rw [u32_of_lt (by omega)]
    rfl
  have hrange : ¬ u64 (req.cmd.slba + req.cmd.nrLbas - 1) / (ns.ftls 0).sp.secsPerPg / ns.nrParts ≥
      (ns.ftls 0).sp.ttPgs := Nat.not_le_of_lt hacc.range
  unfold convWrite
  dsimp only
  rw [lbaToByte_of_lt (by omega), if_neg hrange, hbuf, ok_bind]
  dsimp only
  rw [if_neg (Nat.lt_irrefl _)]
  exact congrArg (· >>= _) (hloop _ rfl)

/-- The first write of the logical page `2 ^ 31` finds it mapped. -/
theorem conv_write_asserts : ConvGeometry .pro8192 107 1 (2 ^ 44) .pro16TiB ∧
    (convWriteBlocks (2 ^ 34) 7).OnNs (nsSize (2 ^ 44) 107) ∧
    (convWriteBlocks (2 ^ 34) 7).FitsBuffer SsdParams.pro16TiB.writeBufferSize ∧
    convRun (fun _ => .instant) .pro8192 107 1 (2 ^ 44) (fun _ => .zeroed) ()
      [convWriteBlocks (2 ^ 34) 7] = .error (.assertion .markPageInvalid) := by
  refine ⟨convGeometry_pro16TiB, by decide +kernel, by decide +kernel, ?_⟩
  obtain ⟨ns, hns, hparts, -, hbuffer, hftls⟩ :=
    convGeometry_pro16TiB.init_fresh (fun _ => .zeroed) ()
  have hfresh := hftls 0 (by decide)
  have g := hfresh.sp_eq.symm ▸ convGeometry_pro16TiB.geometry
  have hmaptbl : (ns.ftls 0).maptbl (2 ^ 31) = pageAt 0 0 0 0 := by
    rw [hfresh.maptbl, fillLoop_apply, if_neg (by decide)]
    rfl
  have hpage : convWritePage (ns.ftls 0) (2 ^ 31) = .error (.assertion .markPageInvalid) := by
    refine convWritePage_free g ?_ ?_
    · rw [hmaptbl, hfresh.sp_eq]
      constructor <;> decide
    · rw [hfresh.pages]
  have hwrite : convWrite (fun _ => .instant) ns { cmd := { opcode := .write, slba := 2 ^ 34, length := 7 } } =
      .error (.assertion .markPageInvalid) := by
    have hsecs : (ns.ftls 0).sp.secsPerPg = 8 := g.secsPerPg
    refine convWrite_error _ ⟨?_, ?_⟩ ?_ ?_ ?_
    · unfold endLpn
      rw [hsecs, hparts, hfresh.sp_eq]
      decide +kernel
    · rw [hbuffer]
      decide +kernel
    · rw [hbuffer]
      decide +kernel
    · unfold endLpn startLpn
      rw [hsecs]
      decide +kernel
    · unfold startLpn
      rw [hsecs, hparts]
      exact hpage
  unfold convRun
  rw [hns, ok_bind, List.foldlM_cons]
  unfold convWriteBlocks ConvLogged.step convProcNvmeIoCmd
  dsimp only
  rw [hwrite]
  rfl

/-! ## Lines -/

/-- Where a line is, by the lists, the queue and the write pointers. -/
def LineClass.Has (f : ConvFtl) (l : Nat) : LineClass → Prop
  | .free => l ∈ f.lm.freeLineList
  | .full => l ∈ f.lm.fullLineList
  | .victim => l ∈ f.lm.victimLinePq.elements
  | .user => l = f.wp.curline
  | .gc => l = f.gcWp.curline
  | .collected => False

/-- The counters of the lines and blocks, and the places of the lines. -/
structure LineAccounting (f : ConvFtl) : Prop where
  vpc : ∀ l < f.sp.ttLines, int32 (f.lm.lines l).vpc = lineCount f.sp f.pages .valid l
  ipc : ∀ l < f.sp.ttLines, int32 (f.lm.lines l).ipc = lineCount f.sp f.pages .invalid l
  blkVpc : ∀ l < f.sp.ttLines, ∀ ch < f.sp.nchs, ∀ lun < f.sp.lunsPerCh,
    (f.blocks (pageAt l ch lun 0)).vpc = blockCount f.sp f.pages .valid l ch lun
  blkIpc : ∀ l < f.sp.ttLines, ∀ ch < f.sp.nchs, ∀ lun < f.sp.lunsPerCh,
    (f.blocks (pageAt l ch lun 0)).ipc = blockCount f.sp f.pages .invalid l ch lun
  place : ∀ l < f.sp.ttLines, ∃! c, LineClass.Has f l c
  free : ∀ l ∈ f.lm.freeLineList, lineCount f.sp f.pages .free l = f.sp.pgsPerLine ∧
    (f.lm.lines l).vpc = 0 ∧ (f.lm.lines l).ipc = 0
  full : ∀ l ∈ f.lm.fullLineList, (f.lm.lines l).vpc = f.sp.pgsPerLine
  victim : ∀ l ∈ f.lm.victimLinePq.elements,
    (f.lm.lines l).vpc + (f.lm.lines l).ipc = f.sp.pgsPerLine ∧ 0 < (f.lm.lines l).ipc
  freeLineCnt : f.lm.freeLineList.Nodup ∧ f.lm.freeLineCnt = f.lm.freeLineList.length
  fullLineCnt : f.lm.fullLineList.Nodup ∧ f.lm.fullLineCnt = f.lm.fullLineList.length
  victimLineCnt : f.lm.victimLinePq.elements.Nodup ∧
    f.lm.victimLineCnt = f.lm.victimLinePq.elements.length

section Lines

variable {M : Prop} {m : Nat} {written : Nat → Prop} {f : ConvFtl} {cls : Nat → LineClass}
  {fill : IoType → Nat} (h : Idle M m written f cls fill)

include h

/-- The class of a line is its place. -/
theorem Idle.has_iff {l : Nat} (hl : l < f.sp.blksPerPl) (c : LineClass) :
    LineClass.Has f l c ↔ cls l = c := by
  have hlists := h.ready.acc.lists
  have hwp := h.ready.acc.wp
  cases c with
  | free => exact (hlists.mem_free l).trans (and_iff_right hl)
  | full => exact (hlists.mem_full l).trans (and_iff_right hl)
  | victim => exact hlists.queue.mem_elements.trans ((hlists.mem_victim l).trans (and_iff_right hl))
  | user => exact (hwp.current .userIo l hl).symm
  | gc => exact (hwp.current .gcIo l hl).symm
  | collected => exact iff_of_false id (h.quiet l hl)

/-- The counters of a line have no wrap-around, with less than `2 ^ 31` pages. -/
theorem Idle.counts_lt (hline : f.sp.pgsPerLine < 2 ^ 31) {l : Nat} (hl : l < f.sp.blksPerPl) :
    (f.lm.lines l).FitsInt := by
  have hacc := h.ready.acc
  unfold Line.FitsInt
  rw [hacc.counts.vpc l hl (h.quiet l hl), hacc.counts.ipc l hl (h.quiet l hl)]
  have h1 := hacc.geometry.lineCount_le f.pages .valid l
  have h2 := hacc.geometry.lineCount_le f.pages .invalid l
  omega

theorem Idle.lineAccounting (hint : ∀ l < f.sp.blksPerPl, (f.lm.lines l).FitsInt) :
    LineAccounting f := by
  have hacc := h.ready.acc
  have g := hacc.geometry
  have hlists := hacc.lists
  have hfree {l : Nat} (hl : l ∈ f.lm.freeLineList) : l < f.sp.blksPerPl ∧
      lineCount f.sp f.pages .free l = f.sp.pgsPerLine := by
    obtain ⟨hlt, hcls⟩ := (hlists.mem_free l).mp hl
    refine ⟨hlt, ?_⟩
    refine g.lineCount_eq.mpr fun ch hch lun hlun pg hpg => ?_
    rw [hacc.fillInv l hlt ch hch lun hlun pg hpg, hcls]
    trivial
  have hzero {l : Nat} (hl : l ∈ f.lm.freeLineList) {s : PgStatus} (hs : s ≠ .free) :
      lineCount f.sp f.pages s l = 0 :=
    g.lineCount_other (hfree hl).2 (Ne.symm hs)
  refine ⟨fun l hl => ?_, fun l hl => ?_, ?_, ?_, fun l hl => ?_, fun l hl => ?_, fun l hl => ?_,
    fun l hl => ?_, ⟨hlists.freeNodup, hlists.freeLineCnt⟩, ⟨hlists.fullNodup, hlists.fullLineCnt⟩,
    ⟨hlists.queue.nodup_elements, ?_⟩⟩
  · rw [g.lines] at hl
    rw [int32_of_lt (hint l hl).1, hacc.counts.vpc l hl (h.quiet l hl)]
  · rw [g.lines] at hl
    rw [int32_of_lt (hint l hl).2, hacc.counts.ipc l hl (h.quiet l hl)]
  · rw [g.lines]
    exact hacc.nand.vpc
  · rw [g.lines]
    exact hacc.nand.ipc
  · rw [g.lines] at hl
    exact ⟨cls l, (h.has_iff hl _).mpr rfl, fun c hc => ((h.has_iff hl c).mp hc).symm⟩
  · obtain ⟨hlt, hall⟩ := hfree hl
    refine ⟨hall, ?_, ?_⟩
    · rw [hacc.counts.vpc l hlt (h.quiet l hlt), hzero hl (by decide)]
    · rw [hacc.counts.ipc l hlt (h.quiet l hlt), hzero hl (by decide)]
  · obtain ⟨hlt, hcls⟩ := (hlists.mem_full l).mp hl
    exact hacc.counts.full l hlt hcls
  · obtain ⟨hlt, hcls⟩ := (hlists.mem_victim l).mp (hlists.queue.mem_elements.mp hl)
    rw [hacc.counts.vpc l hlt (h.quiet l hlt)]
    exact ⟨h.victim_counts hlt hcls, hacc.counts.victim l hlt hcls⟩
  · have hcnt := hlists.victimLineCnt
    rw [Pqueue.length_elements]
    omega

end Lines

/-- With less than `2 ^ 31` pages in a line: the accounting holds after every command. -/
theorem conv_line_accounting (B : Nat → PerfModel τ) {cfg : SsdConfig} {pbaPcent nrParts size : Nat}
    {sp : SsdParams} (h : ConvGeometry cfg pbaPcent nrParts size sp) (hline : sp.pgsPerLine < 2 ^ 31)
    (raw : Nat → ConvFtl) (perf : τ) (events : List ConvEvent)
    (hon : ∀ e ∈ events, e.OnNs (nsSize size pbaPcent)) :
    Partial (convRun B cfg pbaPcent nrParts size raw perf events) fun s =>
      ∀ p < nrParts, LineAccounting (s.device.ns.ftls p) := by
  refine (h.run (S := False) (M := False) (m := 0) id False.elim False.elim B raw perf hon
    False.elim).post.mono fun s hs p hp => ?_
  obtain ⟨hsp, cls, fill, hidle, -⟩ := hs.parts p hp
  refine hidle.lineAccounting fun l hl => hidle.counts_lt ?_ hl
  rw [hsp]
  exact hline

theorem conv_line_accounting_pro64 :
    Total (convRun (fun _ => .instant) .pro64 107 4 (2 ^ 22) (fun _ => .blank) ()
      [convWriteBlocks 0 7, convWriteBlocks 0 7]) fun s => ∀ p < 4,
      LineAccounting (s.device.ns.ftls p) := by
  have hrun : Total (convRun (fun _ => .instant) .pro64 107 4 (2 ^ 22) (fun _ => .blank) ()
      [convWriteBlocks 0 7, convWriteBlocks 0 7]) fun s => s.writes.length = 2 := by decide +kernel
  obtain ⟨s, hs, -⟩ := hrun
  refine ⟨s, hs, conv_line_accounting (fun _ => .instant) convGeometry_pro64 (by decide) _ () _ ?_ s hs⟩
  decide +kernel

end Nvmev
