import Mathlib.Tactic.Ring
import NvmeVirt.Conv.Io

/-!
# Addresses of pages

The geometry of the conventional FTL (`Geometry`, from `ssd_init_params`), the pages on the chips
(`OnChip`) and two numberings of them: `pgidx`, the index of the reverse map, over all pages, and
`order`, in which a write pointer passes the pages of a line. Both are one-to-one, and one step of a
write pointer is one step in the `order` (`order_next_pg` to `order_last`).
-/

namespace Nvmev

open CInt Function Outcome

/-- The indices of the pages fit the bit-fields of a `struct ppa`. -/
structure FitsPpa (sp : SsdParams) : Prop where
  ch : sp.nchs ≤ 2 ^ 8
  lun : sp.lunsPerCh ≤ 2 ^ 8
  blk : sp.blksPerPl ≤ 2 ^ 16
  pg : sp.pgsPerBlk ≤ 2 ^ 16

/-- The `int` products of `ssd_init_params` fit an `int`; beyond it they have no value. -/
structure FitsInt (sp : SsdParams) : Prop where
  pgsPerPl : sp.pgsPerBlk * sp.blksPerPl < 2 ^ 31
  blks : sp.blksPerPl * sp.plsPerLun * sp.lunsPerCh * sp.nchs < 2 ^ 31

/-- A geometry of `ssd_init_params` with one plane for each LUN, pages and at least five lines. -/
structure Geometry (sp : SsdParams) : Prop where
  fits : FitsPpa sp
  fitsInt : FitsInt sp
  secsPerPg : sp.secsPerPg = 8
  planes : sp.plsPerLun = 1
  lines : sp.ttLines = sp.blksPerPl
  pgsPerLun : sp.pgsPerLun = sp.pgsPerBlk * sp.blksPerPl
  pgsPerCh : sp.pgsPerCh = sp.pgsPerLun * sp.lunsPerCh
  ttPgs : sp.ttPgs = sp.pgsPerCh * sp.nchs
  pgsPerLine : sp.pgsPerLine = sp.lunsPerCh * sp.nchs * sp.pgsPerBlk
  oneshotpg : sp.pgsPerBlk = sp.pgsPerOneshotpg * sp.oneshotpgsPerBlk
  flashpg : sp.pgsPerBlk = sp.pgsPerFlashpg * sp.flashpgsPerBlk
  pos : 0 < sp.pgsPerLine
  five : 5 ≤ sp.blksPerPl

/-- The part of a geometry that the writing of one line needs. -/
structure LineGeometry (sp : SsdParams) : Prop where
  fits : FitsPpa sp
  nchs : 0 < sp.nchs
  luns : 0 < sp.lunsPerCh
  oneshot : 0 < sp.pgsPerOneshotpg
  blk : 0 < sp.pgsPerBlk
  dvd : sp.pgsPerOneshotpg ∣ sp.pgsPerBlk
  pgsPerLine : sp.pgsPerLine = sp.lunsPerCh * sp.nchs * sp.pgsPerBlk

/-- The part of a geometry that the numbering of the pages needs. There may be no pages. -/
structure Numbered (sp : SsdParams) : Prop where
  fits : FitsPpa sp
  pgsPerPl : sp.pgsPerBlk * sp.blksPerPl < 2 ^ 31
  planes : sp.plsPerLun = 1
  pgsPerLun : sp.pgsPerLun = sp.pgsPerBlk * sp.blksPerPl
  pgsPerCh : sp.pgsPerCh = sp.pgsPerLun * sp.lunsPerCh
  ttPgs : sp.ttPgs = sp.pgsPerCh * sp.nchs

theorem Geometry.numbered {sp : SsdParams} (g : Geometry sp) : Numbered sp where
  fits := g.fits
  pgsPerPl := g.fitsInt.pgsPerPl
  planes := g.planes
  pgsPerLun := g.pgsPerLun
  pgsPerCh := g.pgsPerCh
  ttPgs := g.ttPgs

theorem Geometry.line {sp : SsdParams} (g : Geometry sp) : LineGeometry sp := by
  have hpos := g.pos
  rw [g.pgsPerLine] at hpos
  have hblk := Nat.pos_of_mul_pos_left hpos
  have hdies := Nat.pos_of_mul_pos_right hpos
  exact {
    fits := g.fits
    nchs := Nat.pos_of_mul_pos_left hdies
    luns := Nat.pos_of_mul_pos_right hdies
    oneshot := Nat.pos_of_mul_pos_right (g.oneshotpg ▸ hblk)
    blk := hblk
    dvd := ⟨_, g.oneshotpg⟩
    pgsPerLine := g.pgsPerLine }

/-- A one-shot page is a whole number of flash pages, and a flash page one of pages. -/
theorem oneshot_div {pgsz flash oneshot : Nat} (hp : 0 < pgsz) (hf : flash % pgsz = 0)
    (ho : oneshot % flash = 0) (n : Nat) :
    oneshot / pgsz * n = flash / pgsz * (oneshot / flash * n) := by
  obtain ⟨a, rfl⟩ := Nat.dvd_of_mod_eq_zero hf
  obtain ⟨b, rfl⟩ := Nat.dvd_of_mod_eq_zero ho
  by_cases ha : a = 0
  · simp [ha]
  · have hpos : 0 < pgsz * a := Nat.mul_pos hp (Nat.pos_of_ne_zero ha)
    rw [Nat.mul_div_cancel_left _ hpos, Nat.mul_assoc pgsz, Nat.mul_div_cancel_left _ hp,
      Nat.mul_div_cancel_left _ hp, Nat.mul_assoc]

/-- The geometry of `ssd_init_params`. -/
theorem geometry_of_ssdInitParams {cfg : SsdConfig} {size nparts : Nat} {sp : SsdParams}
    (h : ssdInitParams cfg size nparts = .ok sp) (hpl : cfg.plnsPerLun = 1) (hfits : FitsPpa sp)
    (hint : FitsInt sp) (hpos : 0 < (sp.ttLines - 4) * sp.pgsPerLine) : Geometry sp := by
  have hsectors := ssdInitParams_sectors h
  unfold ssdInitParams at h
  simp only [bind_ok] at h
  obtain ⟨_, _, _, _, _, hpg, _, hflash, h⟩ := h
  cases h
  have hlines : ∀ a b : Nat, 0 < (a - 4) * b → 0 < b ∧ 5 ≤ a := by
    intro a b hab
    have := Nat.pos_of_mul_pos_left hab
    have := Nat.pos_of_mul_pos_right hab
    omega
  have hl := hlines _ _ hpos
  exact {
    fits := hfits
    fitsInt := hint
    secsPerPg := hsectors.secsPerPg
    planes := hpl
    lines := by simp only [hpl, Nat.mul_one]
    pgsPerLun := by simp only [hpl, Nat.mul_one]
    pgsPerCh := rfl
    ttPgs := rfl
    pgsPerLine := rfl
    oneshotpg := rfl
    flashpg := oneshot_div (by decide) (ensure_ok.mp hpg).2 (ensure_ok.mp hflash) _
    pos := hl.1
    five := by simpa only [hpl, Nat.mul_one] using hl.2 }

/-! ## Pages -/

/-- A page of the chips. -/
structure OnChip (sp : SsdParams) (p : Ppa) : Prop where
  ch : p.ch < sp.nchs
  lun : p.lun < sp.lunsPerCh
  blk : p.blk < sp.blksPerPl
  pg : p.pg < sp.pgsPerBlk
  pl : p.pl = 0
  rsv : p.rsv = 0

/-- The page `pg` of the block of `line` on the LUN `lun` of the channel `ch`. -/
def pageAt (line ch lun pg : Nat) : Ppa := { pg, blk := line, pl := 0, lun, ch, rsv := 0 }

section

variable {sp : SsdParams} {p q : Ppa}

theorem OnChip.eq_pageAt (h : OnChip sp p) : p = pageAt p.blk p.ch p.lun p.pg := by
  obtain ⟨pg, blk, pl, lun, ch, rsv⟩ := p
  obtain rfl : pl = 0 := h.pl
  obtain rfl : rsv = 0 := h.rsv
  rfl

theorem OnChip.page (h : OnChip sp p) : p.page = p := by
  obtain ⟨pg, blk, pl, lun, ch, rsv⟩ := p
  obtain rfl : rsv = 0 := h.rsv
  rfl

theorem OnChip.block (h : OnChip sp p) : p.block = pageAt p.blk p.ch p.lun 0 := by
  obtain ⟨pg, blk, pl, lun, ch, rsv⟩ := p
  obtain rfl : pl = 0 := h.pl
  rfl

theorem OnChip.mapped (h : OnChip sp p) : mappedPpa p = true := by
  unfold mappedPpa
  rw [bne_iff_ne]
  rintro rfl
  exact absurd h.rsv (by decide)

theorem OnChip.valid (g : Geometry sp) (h : OnChip sp p) : validPpa sp p = true := by
  simp [validPpa, h.ch, h.lun, h.blk, h.pg, h.pl, g.planes]

theorem OnChip.inBounds (g : Geometry sp) (h : OnChip sp p) (site : Site) :
    inBounds sp p site = .ok () := ensure_of _ (h.valid g)

theorem pageAt_inj {l l' ch ch' lun lun' pg pg' : Nat}
    (h : pageAt l ch lun pg = pageAt l' ch' lun' pg') : l = l' ∧ ch = ch' ∧ lun = lun' ∧ pg = pg' := by
  simp only [pageAt, Ppa.mk.injEq] at h
  tauto

/-- The bit-fields hold the indices of a page. -/
theorem FitsPpa.ofFields_eq (h : FitsPpa sp) {line ch lun pg : Nat} (hl : line < sp.blksPerPl)
    (hch : ch < sp.nchs) (hlun : lun < sp.lunsPerCh) (hpg : pg < sp.pgsPerBlk) :
    Ppa.ofFields pg line 0 lun ch = pageAt line ch lun pg := by
  have hfch := h.ch
  have hflun := h.lun
  have hfblk := h.blk
  have hfpg := h.pg
  unfold Ppa.ofFields pageAt
  rw [Nat.mod_eq_of_lt (show pg < 2 ^ 16 by omega), Nat.mod_eq_of_lt (show line < 2 ^ 16 by omega),
    Nat.mod_eq_of_lt (show lun < 2 ^ 8 by omega), Nat.mod_eq_of_lt (show ch < 2 ^ 8 by omega),
    Nat.zero_mod]

theorem ofFields_eq (g : Geometry sp) {line ch lun pg : Nat} (hl : line < sp.blksPerPl)
    (hch : ch < sp.nchs) (hlun : lun < sp.lunsPerCh) (hpg : pg < sp.pgsPerBlk) :
    Ppa.ofFields pg line 0 lun ch = pageAt line ch lun pg := g.fits.ofFields_eq hl hch hlun hpg

theorem pageAt_onChip {line ch lun pg : Nat} (hl : line < sp.blksPerPl) (hch : ch < sp.nchs)
    (hlun : lun < sp.lunsPerCh) (hpg : pg < sp.pgsPerBlk) : OnChip sp (pageAt line ch lun pg) :=
  ⟨hch, hlun, hl, hpg, rfl, rfl⟩

/-! ## The index of the reverse map -/

/-- The pages on the chips are those that `valid_ppa` accepts. -/
theorem Numbered.onChip_iff (g : Numbered sp) : OnChip sp p ↔ validPpa sp p = true ∧ p.rsv = 0 := by
  have hpl := g.planes
  unfold validPpa
  simp only [Bool.and_eq_true, decide_eq_true_eq]
  constructor
  · intro h
    exact ⟨⟨⟨⟨⟨h.ch, h.lun⟩, by rw [h.pl]; omega⟩, h.blk⟩, h.pg⟩, h.rsv⟩
  · rintro ⟨⟨⟨⟨⟨hch, hlun⟩, hp⟩, hblk⟩, hpg⟩, hrsv⟩
    exact ⟨hch, hlun, hblk, hpg, by omega, hrsv⟩

theorem Numbered.blk_mul_lt (g : Numbered sp) (h : OnChip sp p) :
    p.blk * sp.pgsPerBlk + p.pg < sp.pgsPerLun := by
  rw [g.pgsPerLun, Nat.mul_comm sp.pgsPerBlk]
  exact radix_lt h.blk h.pg

theorem Numbered.pgsPerLun_lt (g : Numbered sp) : sp.pgsPerLun < 2 ^ 31 := by
  rw [g.pgsPerLun]
  exact g.pgsPerPl

theorem Numbered.ttPgs_lt (g : Numbered sp) : sp.ttPgs < 2 ^ 64 := by
  rw [g.ttPgs, g.pgsPerCh]
  calc sp.pgsPerLun * sp.lunsPerCh * sp.nchs ≤ 2 ^ 31 * 2 ^ 8 * 2 ^ 8 :=
      Nat.mul_le_mul (Nat.mul_le_mul (Nat.le_of_lt g.pgsPerLun_lt) g.fits.lun) g.fits.ch
    _ < 2 ^ 64 := by decide

/-- The pages of the chips, as LUNs of pages. -/
theorem Numbered.ttPgs_eq (g : Numbered sp) : sp.ttPgs = sp.nchs * sp.lunsPerCh * sp.pgsPerLun := by
  rw [g.ttPgs, g.pgsPerCh]
  ring

/-- The index of a page in mixed radix. -/
theorem Numbered.pgidx_eq (g : Numbered sp) (h : OnChip sp p) :
    pgidx sp p = (p.ch * sp.lunsPerCh + p.lun) * sp.pgsPerLun + (p.blk * sp.pgsPerBlk + p.pg) ∧
      pgidx sp p < sp.ttPgs := by
  have hblk := g.blk_mul_lt h
  have hlun := g.pgsPerLun_lt
  have htt : (p.ch * sp.lunsPerCh + p.lun) * sp.pgsPerLun + (p.blk * sp.pgsPerBlk + p.pg) <
      sp.ttPgs := by
    rw [g.ttPgs_eq]
    exact radix_lt (radix_lt h.ch h.lun) hblk
  have hlt := g.ttPgs_lt
  have heq : pgidx sp p =
      (p.ch * sp.lunsPerCh + p.lun) * sp.pgsPerLun + (p.blk * sp.pgsPerBlk + p.pg) := by
    unfold pgidx
    rw [u32_of_lt (by omega), ulong_of_lt (by omega), h.pl, g.pgsPerCh]
    have hring : p.ch * (sp.pgsPerLun * sp.lunsPerCh) + p.lun * sp.pgsPerLun + 0 * sp.pgsPerPl +
        p.blk * sp.pgsPerBlk + p.pg =
        (p.ch * sp.lunsPerCh + p.lun) * sp.pgsPerLun + (p.blk * sp.pgsPerBlk + p.pg) := by ring
    rw [hring, u64_of_lt (by omega)]
  exact ⟨heq, heq ▸ htt⟩

theorem Numbered.pgidx_inj (g : Numbered sp) (hp : OnChip sp p) (hq : OnChip sp q)
    (h : pgidx sp p = pgidx sp q) : p = q := by
  rw [(g.pgidx_eq hp).1, (g.pgidx_eq hq).1] at h
  obtain ⟨hhi, hlo⟩ := radix_inj (g.blk_mul_lt hp) (g.blk_mul_lt hq) h
  obtain ⟨hch, hlun⟩ := radix_inj hp.lun hq.lun hhi
  obtain ⟨hblk, hpg⟩ := radix_inj hp.pg hq.pg hlo
  rw [hp.eq_pageAt, hq.eq_pageAt, hch, hlun, hblk, hpg]

/-- Every index is the one of a page. -/
theorem Numbered.pgidx_exists (g : Numbered sp) {idx : Nat} (h : idx < sp.ttPgs) :
    ∃ p, OnChip sp p ∧ pgidx sp p = idx := by
  rw [g.ttPgs_eq] at h
  obtain ⟨die, hdie, page, hpage, rfl⟩ := radix_exists h
  obtain ⟨ch, hch, lun, hlun, rfl⟩ := radix_exists hdie
  rw [g.pgsPerLun, Nat.mul_comm] at hpage
  obtain ⟨blk, hblk, pg, hpg, rfl⟩ := radix_exists hpage
  have hp : OnChip sp (pageAt blk ch lun pg) := pageAt_onChip hblk hch hlun hpg
  exact ⟨_, hp, (g.pgidx_eq hp).1⟩

theorem Geometry.blk_mul_lt (g : Geometry sp) (h : OnChip sp p) :
    p.blk * sp.pgsPerBlk + p.pg < sp.pgsPerLun := g.numbered.blk_mul_lt h

theorem Geometry.pgidx_eq (g : Geometry sp) (h : OnChip sp p) :
    pgidx sp p = (p.ch * sp.lunsPerCh + p.lun) * sp.pgsPerLun + (p.blk * sp.pgsPerBlk + p.pg) ∧
      pgidx sp p < sp.ttPgs := g.numbered.pgidx_eq h

theorem Geometry.pgidx_inj (g : Geometry sp) (hp : OnChip sp p) (hq : OnChip sp q)
    (h : pgidx sp p = pgidx sp q) : p = q := g.numbered.pgidx_inj hp hq h

/-! ## The order of writing -/

/-- The place of a page of a line in the order of writing: one-shot page by one-shot page over the
channels, then over the LUNs, then on to the next word line. -/
def order (sp : SsdParams) (ch lun pg : Nat) : Nat :=
  ((pg / sp.pgsPerOneshotpg * sp.lunsPerCh + lun) * sp.nchs + ch) * sp.pgsPerOneshotpg +
    pg % sp.pgsPerOneshotpg

theorem LineGeometry.order_lt (g : LineGeometry sp) {ch lun pg : Nat} (hch : ch < sp.nchs)
    (hlun : lun < sp.lunsPerCh) (hpg : pg < sp.pgsPerBlk) : order sp ch lun pg < sp.pgsPerLine := by
  have ho := g.oneshot
  obtain ⟨n, hn⟩ := g.dvd
  have hq : pg / sp.pgsPerOneshotpg < n := by
    rw [Nat.div_lt_iff_lt_mul ho, Nat.mul_comm, ← hn]
    exact hpg
  have hlt := radix_lt (radix_lt (radix_lt hq hlun) hch) (Nat.mod_lt pg ho)
  unfold order
  rwa [g.pgsPerLine, hn, show sp.lunsPerCh * sp.nchs * (sp.pgsPerOneshotpg * n) =
    n * sp.lunsPerCh * sp.nchs * sp.pgsPerOneshotpg by ring]

theorem LineGeometry.order_inj (g : LineGeometry sp) {ch lun pg ch' lun' pg' : Nat}
    (hch : ch < sp.nchs) (hlun : lun < sp.lunsPerCh) (hch' : ch' < sp.nchs)
    (hlun' : lun' < sp.lunsPerCh) (h : order sp ch lun pg = order sp ch' lun' pg') :
    ch = ch' ∧ lun = lun' ∧ pg = pg' := by
  have ho := g.oneshot
  obtain ⟨hhi, hmod⟩ := radix_inj (Nat.mod_lt pg ho) (Nat.mod_lt pg' ho) h
  obtain ⟨hmid, hceq⟩ := radix_inj hch hch' hhi
  obtain ⟨hdiv, hleq⟩ := radix_inj hlun hlun' hmid
  refine ⟨hceq, hleq, ?_⟩
  rw [← Nat.div_add_mod pg sp.pgsPerOneshotpg, ← Nat.div_add_mod pg' sp.pgsPerOneshotpg, hdiv, hmod]

theorem Geometry.order_lt (g : Geometry sp) {ch lun pg : Nat} (hch : ch < sp.nchs)
    (hlun : lun < sp.lunsPerCh) (hpg : pg < sp.pgsPerBlk) : order sp ch lun pg < sp.pgsPerLine :=
  g.line.order_lt hch hlun hpg

theorem Geometry.order_inj (g : Geometry sp) {ch lun pg ch' lun' pg' : Nat} (hch : ch < sp.nchs)
    (hlun : lun < sp.lunsPerCh) (hch' : ch' < sp.nchs) (hlun' : lun' < sp.lunsPerCh)
    (h : order sp ch lun pg = order sp ch' lun' pg') : ch = ch' ∧ lun = lun' ∧ pg = pg' :=
  g.line.order_inj hch hlun hch' hlun' h

section Steps

variable {ch lun pg : Nat}

/-- Inside a one-shot page. -/
theorem order_next_pg (h : (pg + 1) % sp.pgsPerOneshotpg ≠ 0) :
    order sp ch lun (pg + 1) = order sp ch lun pg + 1 := by
  unfold order
  have hdiv : (pg + 1) / sp.pgsPerOneshotpg = pg / sp.pgsPerOneshotpg :=
    Nat.succ_div_of_mod_ne_zero h
  have hmod : (pg + 1) % sp.pgsPerOneshotpg = pg % sp.pgsPerOneshotpg + 1 := by
    have h1 := Nat.div_add_mod (pg + 1) sp.pgsPerOneshotpg
    have h2 := Nat.div_add_mod pg sp.pgsPerOneshotpg
    rw [hdiv] at h1
    omega
  rw [hdiv, hmod, Nat.add_assoc]

/-- The end of a one-shot page, with the first page of it and of the next one. -/
theorem oneshot_end (h : (pg + 1) % sp.pgsPerOneshotpg = 0) :
    pg + 1 = sp.pgsPerOneshotpg * (pg / sp.pgsPerOneshotpg + 1) ∧
      pg + 1 - sp.pgsPerOneshotpg = sp.pgsPerOneshotpg * (pg / sp.pgsPerOneshotpg) ∧
      pg % sp.pgsPerOneshotpg + 1 = sp.pgsPerOneshotpg := by
  have h1 := Nat.div_add_mod (pg + 1) sp.pgsPerOneshotpg
  have h2 := Nat.div_add_mod pg sp.pgsPerOneshotpg
  rw [Nat.succ_div_of_mod_eq_zero h, h] at h1
  have h3 : sp.pgsPerOneshotpg * (pg / sp.pgsPerOneshotpg + 1) =
      sp.pgsPerOneshotpg * (pg / sp.pgsPerOneshotpg) + sp.pgsPerOneshotpg := by ring
  omega

theorem order_oneshot_start (ho : 0 < sp.pgsPerOneshotpg) (ch lun q : Nat) :
    order sp ch lun (sp.pgsPerOneshotpg * q) =
      ((q * sp.lunsPerCh + lun) * sp.nchs + ch) * sp.pgsPerOneshotpg := by
  unfold order
  rw [Nat.mul_div_cancel_left q ho, Nat.mul_mod_right, Nat.add_zero]

theorem order_oneshot_end (h : (pg + 1) % sp.pgsPerOneshotpg = 0) :
    order sp ch lun pg + 1 =
      ((pg / sp.pgsPerOneshotpg * sp.lunsPerCh + lun) * sp.nchs + ch + 1) * sp.pgsPerOneshotpg := by
  unfold order
  have hend := (oneshot_end h).2.2
  rw [Nat.add_assoc, hend]
  ring

/-- On to the next channel. -/
theorem order_next_ch (h : (pg + 1) % sp.pgsPerOneshotpg = 0) (ho : 0 < sp.pgsPerOneshotpg) :
    order sp (ch + 1) lun (pg + 1 - sp.pgsPerOneshotpg) = order sp ch lun pg + 1 := by
  rw [(oneshot_end h).2.1, order_oneshot_start ho, order_oneshot_end h]
  ring

/-- On to the next LUN. -/
theorem order_next_lun (h : (pg + 1) % sp.pgsPerOneshotpg = 0) (ho : 0 < sp.pgsPerOneshotpg)
    (hch : ch + 1 = sp.nchs) :
    order sp 0 (lun + 1) (pg + 1 - sp.pgsPerOneshotpg) = order sp ch lun pg + 1 := by
  rw [(oneshot_end h).2.1, order_oneshot_start ho, order_oneshot_end h, ← hch]
  ring

/-- On to the next word line. -/
theorem order_next_wordline (h : (pg + 1) % sp.pgsPerOneshotpg = 0) (ho : 0 < sp.pgsPerOneshotpg)
    (hch : ch + 1 = sp.nchs) (hlun : lun + 1 = sp.lunsPerCh) :
    order sp 0 0 (pg + 1) = order sp ch lun pg + 1 := by
  rw [(oneshot_end h).1, order_oneshot_start ho, order_oneshot_end h, ← hch, ← hlun]
  ring

/-- The last page of a line. -/
theorem LineGeometry.order_last (g : LineGeometry sp) (h : (pg + 1) % sp.pgsPerOneshotpg = 0)
    (hch : ch + 1 = sp.nchs) (hlun : lun + 1 = sp.lunsPerCh) (hpg : pg + 1 = sp.pgsPerBlk) :
    order sp ch lun pg + 1 = sp.pgsPerLine := by
  rw [order_oneshot_end h, g.pgsPerLine, ← hpg, (oneshot_end h).1, ← hch, ← hlun]
  ring

end Steps

end

end Nvmev
