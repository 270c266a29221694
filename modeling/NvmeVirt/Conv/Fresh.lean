import NvmeVirt.Conv.Namespace

/-!
# A fresh namespace

What `conv_init_ftl` and `conv_init_namespace` leave: every line is free but the two of the write
pointers, no logical page below `2 ^ 31` is mapped, and the credits are one line.
-/

namespace Nvmev

open CInt Function Outcome Tally

/-- The classes of the lines of a fresh FTL. -/
def freshCls : Nat → LineClass := update (update (fun _ => .free) 0 (.current .userIo)) 1 (.current .gcIo)

/-- The lines of `init_lines`: all of them are free. -/
theorem initLines_lists (n m : Nat) : LineLists n {
    lines := fun _ => { ipc := 0, vpc := 0 }
    freeLineList := List.range n
    victimLinePq := Pqueue.init m fun _ => 0
    fullLineList := []
    ttLines := n
    freeLineCnt := n
    victimLineCnt := 0
    fullLineCnt := 0 } fun _ => .free := by
  refine ⟨List.nodup_range, fun l => ?_, ?_, List.nodup_nil, fun l => ?_, rfl, Pqueue.wf_init _ _,
    fun l => ?_, rfl, Pqueue.ordered_init _ _ _, fun l hl => absurd rfl hl⟩
  · rw [List.mem_range, and_iff_left rfl]
  · exact List.length_range.symm
  · exact iff_of_false List.not_mem_nil fun h => nomatch h.2
  · exact iff_of_false (fun h => h rfl) fun h => nomatch h.2

/-- A fresh FTL on the memory `raw`: no page is written, and the write pointers are at the lines 0
and 1. -/
structure FreshFtl (cp : ConvParams) (sp : SsdParams) (raw f : ConvFtl) : Prop where
  sp_eq : f.sp = sp
  cp_eq : f.cp = cp
  pages : f.pages = fun _ => { status := .free, nsecs := sp.secsPerPg }
  blocks : f.blocks = fun _ => { npgs := sp.pgsPerBlk, ipc := 0, vpc := 0 }
  lines : f.lm.lines = fun _ => { ipc := 0, vpc := 0 }
  lists : LineLists sp.blksPerPl f.lm freshCls
  wp : f.getWp .userIo = { curline := 0, blk := 0 }
  gcWp : f.getWp .gcIo = { curline := 1, blk := 1 }
  free : f.lm.freeLineList.length + 2 = sp.blksPerPl
  maptbl : f.maptbl = fillLoop sp.ttPgs unmappedPpa raw.maptbl
  credits : f.wfc = { writeCredits := u32 sp.pgsPerLine, creditsToRefill := u32 sp.pgsPerLine }

theorem convInitFtl_fresh {cp : ConvParams} {sp : SsdParams} (g : Geometry sp) (raw : ConvFtl) :
    Total (convInitFtl cp sp raw) (FreshFtl cp sp raw) := by
  have hfive := g.five
  have hn := g.lines_lt
  obtain ⟨k, hk⟩ : ∃ k, sp.blksPerPl = k + 2 := ⟨sp.blksPerPl - 2, by omega⟩
  have hrange : List.range sp.blksPerPl = 0 :: 1 :: List.range' 2 k := by
    rw [hk, List.range_eq_range', List.range'_succ, List.range'_succ]
  obtain ⟨htake, hlists⟩ := (initLines_lists sp.blksPerPl sp.ttLines).getNextFreeLine hn hrange
    (LineClass.current_offList .userIo)
  obtain ⟨htake₂, hlists₂⟩ := hlists.getNextFreeLine hn rfl (LineClass.current_offList .gcIo)
  unfold convInitFtl initLines nvmevAssert
  rw [ensure_of _ g.lines.symm, ok_bind]
  refine .bind (Q := fun lm => lm = _) (.ret rfl) ?_
  rintro lm rfl
  dsimp only
  unfold prepareWritePointer
  dsimp only
  rw [htake]
  dsimp only [ConvFtl.setWp]
  refine .bind (Q := fun f => f = _) (.ret rfl) ?_
  rintro f rfl
  dsimp only
  rw [htake₂]
  refine .bind (Q := fun f => f = _) (.ret rfl) ?_
  rintro f rfl
  refine .ret ⟨rfl, rfl, rfl, rfl, rfl, hlists₂, rfl, rfl, ?_, rfl, rfl⟩
  change (List.range' 2 k).length + 2 = _
  rw [List.length_range', hk]

section Fresh

variable {S M : Prop} {cp : ConvParams} {sp : SsdParams} {raw f : ConvFtl}

/-- The lines of a fresh FTL by class. -/
theorem freshCls_cases (l : Nat) : (l = 0 ∧ freshCls l = .user) ∨ (l = 1 ∧ freshCls l = .gc) ∨
    (l ≠ 0 ∧ l ≠ 1 ∧ freshCls l = .free) := by
  unfold freshCls
  by_cases h1 : l = 1
  · subst h1
    exact .inr (.inl ⟨rfl, update_self ..⟩)
  rw [update_of_ne h1]
  by_cases h0 : l = 0
  · subst h0
    exact .inl ⟨rfl, update_self ..⟩
  · rw [update_of_ne h0]
    exact .inr (.inr ⟨h0, h1, rfl⟩)

variable (h : FreshFtl cp sp raw f) (g : Geometry sp)

include h g

theorem FreshFtl.ready : Ready f freshCls (fun _ _ => False) fun _ => 0 := by
  have hpos := g.pos
  rw [g.pgsPerLine] at hpos
  have hch : 0 < sp.nchs := Nat.pos_of_mul_pos_left (Nat.pos_of_mul_pos_right hpos)
  have hlun : 0 < sp.lunsPerCh := Nat.pos_of_mul_pos_right (Nat.pos_of_mul_pos_right hpos)
  have hpg : 0 < sp.pgsPerBlk := Nat.pos_of_mul_pos_left hpos
  have hfive := g.five
  have hnone {s : PgStatus} (hs : s ≠ .free) (p : Ppa) : ((f.pages p).status == s) = false := by
    rw [h.pages]
    exact beq_false_of_ne (Ne.symm hs)
  have hblock {s : PgStatus} (hs : s ≠ .free) (l ch lun : Nat) : blockCount f.sp f.pages s l ch lun = 0 :=
    tally_eq_zero.mpr fun _ _ => hnone hs _
  have hline {s : PgStatus} (hs : s ≠ .free) (l : Nat) : lineCount f.sp f.pages s l = 0 :=
    tally_eq_zero.mpr fun _ _ => hnone hs _
  refine ⟨⟨h.sp_eq.symm ▸ g, ⟨fun p => ?_, fun b => ?_, ?_, ?_⟩, ?_, ⟨?_, ?_, ?_, ?_⟩, ?_, ⟨?_, ?_⟩⟩, ?_⟩
  · rw [h.pages, h.sp_eq]
  · rw [h.blocks, h.sp_eq]
  · intro l _ ch _ lun _
    rw [hblock (by decide), h.blocks]
  · intro l _ ch _ lun _
    rw [hblock (by decide), h.blocks]
  · intro l _ ch _ lun _ pg _
    rw [h.pages]
    obtain ⟨-, hc⟩ | ⟨-, hc⟩ | ⟨-, -, hc⟩ := freshCls_cases l <;> rw [hc]
    · exact iff_of_true rfl (Nat.zero_le _)
    · exact iff_of_true rfl (Nat.zero_le _)
    · exact iff_of_true rfl trivial
  · intro l _ _
    rw [hline (by decide), h.lines]
  · intro l _ _
    rw [hline (by decide), h.lines]
  · intro l _ hcl
    obtain ⟨-, hc⟩ | ⟨-, hc⟩ | ⟨-, -, hc⟩ := freshCls_cases l <;> rw [hc] at hcl <;> cases hcl
  · intro l _ hcl
    obtain ⟨-, hc⟩ | ⟨-, hc⟩ | ⟨-, -, hc⟩ := freshCls_cases l <;> rw [hc] at hcl <;> cases hcl
  · rw [h.sp_eq]
    exact h.lists
  · rw [h.sp_eq]
    rintro (_ | _)
    · rw [h.wp]
      exact ⟨by dsimp only; omega, rfl, rfl, hch, hlun, hpg⟩
    · rw [h.gcWp]
      exact ⟨by dsimp only; omega, rfl, rfl, hch, hlun, hpg⟩
  · rintro (_ | _) l _
    · rw [h.wp]
      obtain ⟨rfl, hc⟩ | ⟨rfl, hc⟩ | ⟨h0, -, hc⟩ := freshCls_cases l <;> rw [hc]
      · exact iff_of_true rfl rfl
      · exact iff_of_false (fun h => nomatch h) (by decide)
      · exact iff_of_false (fun h => nomatch h) h0
    · rw [h.gcWp]
      obtain ⟨rfl, hc⟩ | ⟨rfl, hc⟩ | ⟨-, h1, hc⟩ := freshCls_cases l <;> rw [hc]
      · exact iff_of_false (fun h => nomatch h) (by decide)
      · exact iff_of_true rfl rfl
      · exact iff_of_false (fun h => nomatch h) h1
  · have hzero : order f.sp 0 0 0 = 0 := by simp [order]
    rintro (_ | _)
    · rw [h.wp]
      exact hzero
    · rw [h.gcWp]
      exact hzero

omit g in
theorem FreshFtl.map {m : Nat} (hm : m ≤ sp.ttPgs) (hsmall : m ≤ 2 ^ 31) :
    MapInv f m (fun _ => False) (fun _ => False) fun _ => False := by
  have hunmapped {l : Nat} (hl : l < m) : ¬ mappedPpa (f.maptbl l) = true := by
    rw [h.maptbl, fillLoop_apply, if_pos ⟨by omega, by omega⟩]
    decide
  refine ⟨h.sp_eq.symm ▸ hm, fun l hl _ => iff_of_false (hunmapped hl) id,
    fun l hl _ hmap => absurd hmap (hunmapped hl), fun p _ hv _ => ?_⟩
  rw [h.pages] at hv
  cases hv

theorem FreshFtl.funded (hcp : cp.gcThresLinesHigh = 2) (hsmall : sp.pgsPerLine < 2 ^ 31) :
    Funded f fun _ => 0 := by
  have hpos := g.pos
  have hcredits := h.credits
  rw [u32_of_lt (by omega)] at hcredits
  have hspace : sp.blksPerPl * sp.pgsPerLine = space f fun _ => 0 := by
    unfold space
    rw [h.sp_eq, ← h.free, Nat.add_mul]
    dsimp only
    omega
  have hmul := Nat.mul_le_mul_right sp.pgsPerLine g.five
  refine ⟨⟨?_, ?_, ?_, ?_, (congrArg _ h.cp_eq).trans hcp⟩, ?_⟩
  · rw [hcredits]
    exact hpos
  · rw [hcredits, h.sp_eq]
  · rw [hcredits, h.sp_eq]
  · rw [hcredits, h.sp_eq, ← hspace]
    dsimp only
    omega
  · rw [hcredits]
    exact hpos

theorem FreshFtl.served {m : Nat} (hcp : cp.gcThresLinesHigh = 2) (hm : M → m ≤ sp.ttPgs ∧ m ≤ 2 ^ 31)
    (hsmall : S → sp.pgsPerLine < 2 ^ 31) : Served S M sp m (fun _ => False) f := by
  refine ⟨h.sp_eq, freshCls, fun _ => 0, ⟨h.ready g, fun l _ => ?_, fun hM => ?_⟩, fun hS => ?_⟩
  · obtain ⟨-, hc⟩ | ⟨-, hc⟩ | ⟨-, -, hc⟩ := freshCls_cases l <;> rw [hc] <;> decide
  · exact h.map (hm hM).1 (hm hM).2
  · exact h.funded g hcp (hsmall hS)

end Fresh

/-! ## The namespace -/

/-- The pages of a partition are those of its lines. -/
theorem Geometry.ttPgs_eq {sp : SsdParams} (g : Geometry sp) :
    sp.ttPgs = sp.blksPerPl * sp.pgsPerLine := by
  rw [g.ttPgs, g.pgsPerCh, g.pgsPerLun, g.pgsPerLine]
  ring

/-- `ns->size` in bytes of a namespace over `size` bytes of memory. -/
def nsSize (size pbaPcent : Nat) : Nat := u64 (size * 100) / pbaPcent

/-- The geometry `sp` of a configuration with one plane for each LUN and page indices that fit the
bit-fields and the `int` products, in which the logical pages of a partition leave four lines. -/
structure ConvGeometry (cfg : SsdConfig) (pbaPcent nrParts size : Nat) (sp : SsdParams) : Prop where
  params : ssdInitParams cfg size nrParts = .ok sp
  planes : cfg.plnsPerLun = 1
  fits : FitsPpa sp
  fitsInt : FitsInt sp
  lpns : hostLpns (nsSize size pbaPcent) nrParts < (sp.ttLines - 4) * sp.pgsPerLine

section Namespace

variable {S M : Prop} {cfg : SsdConfig} {pbaPcent nrParts size : Nat} {sp : SsdParams}
  (h : ConvGeometry cfg pbaPcent nrParts size sp)

include h

theorem ConvGeometry.geometry : Geometry sp :=
  geometry_of_ssdInitParams h.params h.planes h.fits h.fitsInt (Nat.zero_lt_of_lt h.lpns)

theorem ConvGeometry.nrParts_pos : 0 < nrParts := by
  have hpos := h.geometry.pos
  have hparams := h.params
  unfold ssdInitParams at hparams
  simp only [bind_ok] at hparams
  obtain ⟨_, _, _, _, _, _, _, _, hsp⟩ := hparams
  refine Nat.pos_of_ne_zero fun hzero => ?_
  rw [h.geometry.pgsPerLine] at hpos
  cases hsp
  simp [hzero] at hpos

theorem ConvGeometry.hostLpns_le : hostLpns (nsSize size pbaPcent) nrParts ≤ sp.ttPgs := by
  have hlpns := h.lpns
  rw [h.geometry.ttPgs_eq, ← h.geometry.lines]
  have hle : (sp.ttLines - 4) * sp.pgsPerLine ≤ sp.ttLines * sp.pgsPerLine :=
    Nat.mul_le_mul_right _ (Nat.sub_le _ _)
  omega

variable {τ : Type}

theorem ConvGeometry.init_fresh (raw : Nat → ConvFtl) (perf : τ) :
    Total (convInitNamespace cfg pbaPcent nrParts size raw perf) fun ns => ns.nrParts = nrParts ∧
      ns.size = nsSize size pbaPcent ∧ ns.writeBuffer = bufferInit sp.writeBufferSize ∧
      ∀ p < nrParts, FreshFtl (convInitParams pbaPcent) sp (raw p) (ns.ftls p) := by
  unfold convInitNamespace
  rw [h.params, ok_bind]
  refine .bind (Q := fun ftls : Nat → ConvFtl =>
    (∀ p < nrParts, FreshFtl (convInitParams pbaPcent) sp (raw p) (ftls p)) ∧
      ∀ p, nrParts ≤ p → ftls p = raw p) ?_ fun ftls hftls => .ret ⟨rfl, rfl, rfl, hftls.1⟩
  refine .forRange (I := fun i (ftls : Nat → ConvFtl) =>
    (∀ p < i, FreshFtl (convInitParams pbaPcent) sp (raw p) (ftls p)) ∧ ∀ p, i ≤ p → ftls p = raw p)
    ⟨fun p hp => by omega, fun _ _ => rfl⟩ fun i _ ftls hI => ?_
  refine (convInitFtl_fresh h.geometry (ftls i)).bind fun f hf => .ret ⟨fun p hp => ?_, fun p hp => ?_⟩
  · by_cases hpi : p = i
    · subst hpi
      rw [update_self, ← hI.2 p (Nat.le_refl _)]
      exact hf
    · rw [update_of_ne hpi]
      exact hI.1 p (by omega)
  · rw [update_of_ne (by omega)]
    exact hI.2 p (by omega)

theorem ConvGeometry.init {m : Nat} (hm : M → m ≤ sp.ttPgs ∧ m ≤ 2 ^ 31)
    (hsmall : S → sp.pgsPerLine < 2 ^ 31) (raw : Nat → ConvFtl) (perf : τ) :
    Total (convInitNamespace cfg pbaPcent nrParts size raw perf) fun ns =>
      NsInv S M sp m nrParts (nsSize size pbaPcent) sp.writeBufferSize { device := { ns } } := by
  refine (h.init_fresh raw perf).mono ?_
  rintro ns ⟨hparts, hsize, hbuffer, hftls⟩
  refine ⟨hparts, h.nrParts_pos, hsize, ?_, congrArg _ hbuffer, fun p hp => ?_,
    fun _ hcmd => nomatch hcmd⟩
  · exact Nat.lt_of_le_of_lt (Nat.div_le_self _ _) (Nat.mod_lt _ (by decide))
  · obtain ⟨hsp, cls, fill, hidle, hfunded⟩ := (hftls p hp).served h.geometry rfl hm hsmall
    refine ⟨hsp, cls, fill, ⟨hidle.ready, hidle.quiet, fun hM => ?_⟩, hfunded⟩
    -- no write is accepted yet
    refine (hidle.map hM).congrWritten fun l => iff_of_false id ?_
    rintro ⟨cmd, hcmd, -⟩
    cases hcmd

end Namespace

end Nvmev
