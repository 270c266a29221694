import Mathlib.Tactic.IntervalCases
import NvmeVirt.Conv.Runs
import NvmeVirt.Ssd.Products

/-!
# The numbering of the pages

`ppa2pgidx` numbers the pages that `valid_ppa` accepts from 0 to `tt_pgs - 1`, each once
(`Numbered.bijOn`), where the counts of `ssd_init_params` fit the bit-fields of a `struct ppa`. They do in
the shipped configuration up to 16 TiB, with any number of partitions (`page_numbering`). The counts are
those of a device that holds the capacity (`ssdInitParams_capacity`).
-/

namespace Nvmev

open CInt Function Outcome

/-! ## The encoding of an address -/

/-- The 64 bits of a `struct ppa`: the first field is the lowest. -/
def Ppa.ppa (p : Ppa) : Nat :=
  ((((p.rsv * 2 ^ 8 + p.ch) * 2 ^ 8 + p.lun) * 2 ^ 8 + p.pl) * 2 ^ 16 + p.blk) * 2 ^ 16 + p.pg

/-- The fields are no wider than their bit-fields. -/
structure Ppa.InFields (p : Ppa) : Prop where
  pg : p.pg < 2 ^ 16
  blk : p.blk < 2 ^ 16
  pl : p.pl < 2 ^ 8
  lun : p.lun < 2 ^ 8
  ch : p.ch < 2 ^ 8
  rsv : p.rsv < 2 ^ 8

theorem Ppa.InFields.ppa_inj {p q : Ppa} (hp : p.InFields) (hq : q.InFields) (h : p.ppa = q.ppa) :
    p = q := by
  unfold Ppa.ppa at h
  obtain ⟨h, hpg⟩ := radix_inj hp.pg hq.pg h
  obtain ⟨h, hblk⟩ := radix_inj hp.blk hq.blk h
  obtain ⟨h, hpl⟩ := radix_inj hp.pl hq.pl h
  obtain ⟨h, hlun⟩ := radix_inj hp.lun hq.lun h
  obtain ⟨hrsv, hch⟩ := radix_inj hp.ch hq.ch h
  cases p
  cases q
  simp_all

/-- `mapped_ppa` compares the 64 bits with those of `UNMAPPED_PPA`. -/
theorem mappedPpa_iff {p : Ppa} (hp : p.InFields) : mappedPpa p = true ↔ p.ppa ≠ 2 ^ 64 - 1 := by
  have hun : unmappedPpa.InFields := by constructor <;> decide
  have hval : unmappedPpa.ppa = 2 ^ 64 - 1 := by decide
  unfold mappedPpa
  rw [bne_iff_ne, ← hval]
  exact not_congr ⟨fun h => h ▸ rfl, hp.ppa_inj hun⟩

/-! ## Every configuration -/

section

variable {cfg : SsdConfig} {capacity nparts : Nat} {sp : SsdParams} {p : Ppa}

/-- The lines have the pages of the device, and the flash pages of a block those of the block. -/
theorem ssdInitParams_counts (h : ssdInitParams cfg capacity nparts = .ok sp) :
    sp.pgsPerLine * sp.ttLines = sp.ttPgs ∧ sp.flashpgsPerBlk * sp.pgsPerFlashpg = sp.pgsPerBlk := by
  unfold ssdInitParams at h
  simp only [bind_ok] at h
  obtain ⟨_, _, _, _, _, hpg, _, hflash, h⟩ := h
  cases h
  dsimp only
  constructor
  · ring
  · rw [oneshot_div (by decide) (ensure_ok.mp hpg).2 (ensure_ok.mp hflash), Nat.mul_comm]

/-- The pages hold the capacity of a partition. -/
theorem ssdInitParams_capacity (h : ssdInitParams cfg capacity nparts = .ok sp)
    (honeshot : 0 < cfg.oneshotPageSize) (hdies : 0 < cfg.plnsPerLun * cfg.lunsPerNandCh * sp.nchs) :
    capacity / nparts ≤ sp.ttPgs * sp.pgsz := by
  unfold ssdInitParams at h
  simp only [bind_ok] at h
  obtain ⟨_, _, _, hgiven, _, hpg, _, _, h⟩ := h
  cases h
  dsimp only at hdies ⊢
  generalize capacity / nparts = bytes at *
  generalize cfg.nandChannels / nparts = nchs at *
  have hpgs : cfg.oneshotPageSize / (lbaSize * (4096 / lbaSize)) * (lbaSize * (4096 / lbaSize)) =
      cfg.oneshotPageSize := Nat.div_mul_cancel (Nat.dvd_of_mod_eq_zero (ensure_ok.mp hpg).1)
  generalize lbaSize * (4096 / lbaSize) = pgsz at *
  -- One of the two counts is given, and the other one is rounded up.
  have hblks : ∀ blks blkSize : Nat, bytes ≤ blkSize * (blks * (cfg.plnsPerLun * cfg.lunsPerNandCh * nchs)) →
      bytes ≤ cfg.oneshotPageSize / pgsz * divRoundUp blkSize cfg.oneshotPageSize * blks * cfg.plnsPerLun *
        cfg.lunsPerNandCh * nchs * pgsz := by
    intro blks blkSize hle
    have hsize := le_divRoundUp_mul blkSize honeshot
    calc bytes ≤ blkSize * (blks * (cfg.plnsPerLun * cfg.lunsPerNandCh * nchs)) := hle
      _ ≤ divRoundUp blkSize cfg.oneshotPageSize * cfg.oneshotPageSize *
          (blks * (cfg.plnsPerLun * cfg.lunsPerNandCh * nchs)) := Nat.mul_le_mul_right _ hsize
      _ = divRoundUp blkSize cfg.oneshotPageSize * (cfg.oneshotPageSize / pgsz * pgsz) *
          (blks * (cfg.plnsPerLun * cfg.lunsPerNandCh * nchs)) := by rw [hpgs]
      _ = _ := by ring
  apply hblks
  by_cases hb : 0 < cfg.blksPerPln
  · rw [if_pos hb, if_pos hb]
    have := le_divRoundUp_mul bytes (Nat.mul_pos hb hdies)
    rwa [← Nat.mul_assoc cfg.blksPerPln, ← Nat.mul_assoc cfg.blksPerPln] at this ⊢
  · have hsize : 0 < cfg.blkSize := (ensure_ok.mp hgiven).resolve_left hb
    rw [if_neg hb, if_neg hb]
    have := le_divRoundUp_mul bytes (Nat.mul_pos hsize hdies)
    rw [← Nat.mul_assoc cfg.blkSize, ← Nat.mul_assoc cfg.blkSize] at this
    calc bytes ≤ _ := this
      _ = _ := by ring

/-- The pages that `valid_ppa` accepts, with no reserved bit. -/
def validPpas (sp : SsdParams) : Set Ppa := {p | validPpa sp p = true ∧ p.rsv = 0}

theorem Numbered.mem_validPpas (g : Numbered sp) : p ∈ validPpas sp ↔ OnChip sp p := g.onChip_iff.symm

/-- The numbering is one-to-one and onto the numbers below `tt_pgs`. -/
theorem Numbered.bijOn (g : Numbered sp) : Set.BijOn (pgidx sp) (validPpas sp) (Set.Iio sp.ttPgs) := by
  refine ⟨fun p hp => ?_, fun p hp q hq h => ?_, fun idx hidx => ?_⟩
  · exact (g.pgidx_eq (g.mem_validPpas.mp hp)).2
  · exact g.pgidx_inj (g.mem_validPpas.mp hp) (g.mem_validPpas.mp hq) h
  · obtain ⟨p, hp, heq⟩ := g.pgidx_exists hidx
    exact ⟨p, g.mem_validPpas.mpr hp, heq⟩

/-- The assertion of `ppa2pgidx` holds. -/
theorem Numbered.ppa2pgidx_eq {f : ConvFtl} (g : Numbered f.sp) (hp : p ∈ validPpas f.sp) :
    ppa2pgidx f p = .ok (pgidx f.sp p) := by
  unfold ppa2pgidx nvmevAssert
  rw [ensure_of _ (g.pgidx_eq (g.mem_validPpas.mp hp)).2]
  rfl

theorem Numbered.inFields (g : Numbered sp) (hp : p ∈ validPpas sp) : p.InFields := by
  have h := g.mem_validPpas.mp hp
  exact {
    pg := Nat.lt_of_lt_of_le h.pg g.fits.pg
    blk := Nat.lt_of_lt_of_le h.blk g.fits.blk
    pl := by rw [h.pl]; decide
    lun := Nat.lt_of_lt_of_le h.lun g.fits.lun
    ch := Nat.lt_of_lt_of_le h.ch g.fits.ch
    rsv := by rw [h.rsv]; decide }

theorem Numbered.ne_unmapped (g : Numbered sp) (hp : p ∈ validPpas sp) : p.ppa ≠ 2 ^ 64 - 1 :=
  (mappedPpa_iff (g.inFields hp)).mp (g.mem_validPpas.mp hp).mapped

end

/-! ## The shipped configuration -/

/-- The geometry of `SAMSUNG_970PRO` with `nchs` channels and `oneshotpgs` one-shot pages in a block. -/
def SsdParams.pro8192 (nchs oneshotpgs : Nat) : SsdParams :=
  { secsz := 512, secsPerPg := 8, pgsz := 4096, pgsPerFlashpg := 8, flashpgsPerBlk := 1 * oneshotpgs
    pgsPerOneshotpg := 8, oneshotpgsPerBlk := oneshotpgs, pgsPerBlk := 8 * oneshotpgs, blksPerPl := 8192
    plsPerLun := 1, lunsPerCh := 2, nchs, cellMode := 2, writeUnitSize := 512, writeEarlyCompletion := true
    fw4kbRdLat := 21500, fwRdLat := 30490, pgsPerPl := 8 * oneshotpgs * 8192
    pgsPerLun := 8 * oneshotpgs * 8192 * 1, pgsPerCh := 8 * oneshotpgs * 8192 * 1 * 2
    ttPgs := 8 * oneshotpgs * 8192 * 1 * 2 * nchs, blksPerLun := 8192 * 1
    pgsPerLine := 2 * nchs * (8 * oneshotpgs), blksPerLine := 2 * nchs, ttLines := 8192 * 1
    ttLuns := 2 * nchs, writeBufferSize := 2 ^ 20 }

section

variable {capacity nparts : Nat}

/-- The one-shot pages of a block: the capacity of a partition over its blocks, rounded up. -/
def oneshotpgs8192 (capacity nparts : Nat) : Nat :=
  divRoundUp (divRoundUp (capacity / nparts) (8192 * 1 * 2 * (8 / nparts))) 32768

theorem oneshotpgs8192_le (hcap : capacity ≤ 2 ^ 44) (hn : nparts ∣ 8) :
    oneshotpgs8192 capacity nparts ≤ 4096 := by
  have hpos : 0 < nparts := Nat.pos_of_dvd_of_pos hn (by decide)
  have hle : nparts ≤ 8 := Nat.le_of_dvd (by decide) hn
  unfold oneshotpgs8192 divRoundUp
  interval_cases nparts <;> omega

theorem ssdInitParams_pro8192 (capacity : Nat) (hn : nparts ∣ 8) : ssdInitParams .pro8192 capacity nparts =
    .ok (.pro8192 (8 / nparts) (oneshotpgs8192 capacity nparts)) := by
  have hdvd : SsdConfig.pro8192.nandChannels % nparts = 0 := Nat.mod_eq_zero_of_dvd hn
  unfold ssdInitParams nvmevAssert
  dsimp only
  rw [ensure_of _ hdvd, ok_bind]
  rfl

variable {nchs oneshotpgs : Nat}

/-- The counts fit the bit-fields of a `struct ppa`. -/
theorem numbered_pro8192 (hnchs : nchs ≤ 8) (hpgs : oneshotpgs ≤ 4096) :
    Numbered (.pro8192 nchs oneshotpgs) := by
  refine { fits := ?_, pgsPerPl := ?_, planes := rfl, pgsPerLun := Nat.mul_one _, pgsPerCh := rfl, ttPgs := rfl }
  · constructor <;> (unfold SsdParams.pro8192; dsimp only; omega)
  · unfold SsdParams.pro8192
    dsimp only
    omega

/-- And the types of the source. -/
theorem productsFit_pro8192 (hcap : capacity ≤ 2 ^ 44) (hparts : nparts ≠ 0) (hpos : 0 < nchs)
    (hnchs : nchs ≤ 8) (hpgs : oneshotpgs ≤ 4096) :
    ProductsFit .pro8192 capacity nparts (.pro8192 nchs oneshotpgs) := by
  have hmul : oneshotpgs * nchs ≤ 4096 * 8 := Nat.mul_le_mul hpgs hnchs
  have htt : 8 * oneshotpgs * 8192 * 1 * 2 * nchs = 131072 * (oneshotpgs * nchs) := by ring
  have hline : 2 * nchs * (8 * oneshotpgs) = 16 * (oneshotpgs * nchs) := by ring
  unfold SsdConfig.pro8192 SsdConfig.samsung970Pro SsdParams.pro8192
  constructor <;> (try dsimp only) <;> omega

end

/-- The shipped configuration with any capacity up to 16 TiB and any number of partitions that divides the
channels. `ssd_init_params` returns; a partition holds its share of the capacity; the lines have the pages of
the device, and the flash pages of a block those of the block; the indices of a page fit the bit-fields of a
`struct ppa`; and `ppa2pgidx` numbers the pages that `valid_ppa` accepts from 0 to `tt_pgs - 1`, each once.
None of them is `UNMAPPED_PPA`. -/
theorem page_numbering {capacity nparts : Nat} (hcap : capacity ≤ 2 ^ 44)
    (hn : nparts ∣ SsdConfig.pro8192.nandChannels) :
    Total (ssdInitParamsC .pro8192 capacity nparts) fun sp =>
      capacity / nparts ≤ sp.ttPgs * sp.pgsz ∧ sp.pgsPerLine * sp.ttLines = sp.ttPgs ∧
      sp.flashpgsPerBlk * sp.pgsPerFlashpg = sp.pgsPerBlk ∧ FitsPpa sp ∧
      (∀ f : ConvFtl, f.sp = sp → ∀ p ∈ validPpas sp, ppa2pgidx f p = .ok (pgidx sp p)) ∧
      Set.BijOn (pgidx sp) (validPpas sp) (Set.Iio sp.ttPgs) ∧
      ∀ p ∈ validPpas sp, p.InFields ∧ p.ppa ≠ 2 ^ 64 - 1 := by
  have hpos : 0 < nparts := Nat.pos_of_dvd_of_pos hn (by decide)
  have hnchs : 0 < 8 / nparts := Nat.div_pos (Nat.le_of_dvd (by decide) hn) hpos
  have hle : 8 / nparts ≤ 8 := Nat.div_le_self _ _
  have hpgs := oneshotpgs8192_le hcap hn
  have h := ssdInitParams_pro8192 capacity hn
  have g := numbered_pro8192 hle hpgs
  have hfit := productsFit_pro8192 hcap (Nat.ne_of_gt hpos) hnchs hle hpgs
  have hcounts := ssdInitParams_counts h
  refine ⟨_, ssdInitParamsC_eq h hfit, ?_, hcounts.1, hcounts.2, g.fits, ?_, g.bijOn, ?_⟩
  · exact ssdInitParams_capacity h (by decide) (Nat.mul_pos (by decide) hnchs)
  · intro f hf p hp
    rw [← hf] at g hp ⊢
    exact g.ppa2pgidx_eq hp
  · exact fun p hp => ⟨g.inFields hp, g.ne_unmapped hp⟩

/-- A device of 1 TiB with the four partitions of the shipped configuration. -/
theorem page_numbering_four_partitions : Total (ssdInitParamsC .pro8192 (2 ^ 40) 4) fun sp =>
    2 ^ 38 ≤ sp.ttPgs * sp.pgsz ∧ FitsPpa sp ∧ Set.BijOn (pgidx sp) (validPpas sp) (Set.Iio sp.ttPgs) ∧
      ∀ p ∈ validPpas sp, p.ppa ≠ 2 ^ 64 - 1 := by
  obtain ⟨sp, hsp, hcap, -, -, hfits, -, hbij, hmapped⟩ :=
    page_numbering (show 2 ^ 40 ≤ 2 ^ 44 by decide) (show 4 ∣ SsdConfig.pro8192.nandChannels by decide)
  exact ⟨sp, hsp, hcap, hfits, hbij, fun p hp => (hmapped p hp).2⟩

end Nvmev
