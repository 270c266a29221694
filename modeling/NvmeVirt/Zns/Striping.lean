import Mathlib.Data.Finset.Card
import NvmeVirt.Lib.Spans
import NvmeVirt.Zns.Zrwa

/-!
# The stripes of a zone

`__lpn_to_ppa` spreads the one-shot pages of a zone over `dies_per_zone` dies in turn. A die of the
zone is the pair of its channel and its number in the channel.

The loops of `__zns_write` and `zns_read` go on to the end of a one-shot page or a flash page: each of
them is a `foldl` over the spans of `Spans.cut` (`writeLoop_eq`, `readLoop_eq`), which tile the range of
the command.
-/

namespace Nvmev

open CInt Spans

/-- The die of a page: its channel, and its number there. -/
def Ppa.die (p : Ppa) : Nat × Nat := (p.ch, p.lun)

namespace Zns

variable {τ : Type}

/-- The geometry: whole stripes on the dies, whole flash pages in a one-shot page, and a namespace of
fewer than `2 ^ 32` blocks. -/
structure StripeGeometry (sp : SsdParams) (zp : ZnsParams) : Prop where
  sectors : sp.Sectors
  zonePos : 0 < zp.zoneSize
  aligned : zp.zoneSize % 4096 = 0
  small : zp.nrZones * (zp.zoneSize / 512) < 2 ^ 32
  luns : sp.ttLuns = sp.lunsPerCh * sp.nchs
  lunsPos : 0 < sp.lunsPerCh * sp.nchs
  stripe : zp.diesPerZone ∣ sp.nchs * sp.lunsPerCh
  flash : sp.pgsPerFlashpg ∣ sp.pgsPerOneshotpg
  oneshotPos : 0 < sp.pgsPerOneshotpg

/-- The numbers of a die and of a page in a one-shot page fit the bit fields of `struct ppa`. -/
structure FitsPpa (sp : SsdParams) : Prop where
  ch : sp.nchs ≤ 2 ^ 8
  lun : sp.lunsPerCh ≤ 2 ^ 8
  page : sp.pgsPerOneshotpg ≤ 2 ^ 16

/-- The pages of a zone. -/
def zonePgs (sp : SsdParams) (zp : ZnsParams) : Nat := zp.zoneSize / sp.pgsz

section Zone

variable (z : ZnsFtl τ) (zid : Nat)

/-- `lpn` is a page of zone `zid`. -/
def InZone (lpn : Nat) : Prop :=
  zid * zonePgs z.ssd.sp z.zp ≤ lpn ∧ lpn < (zid + 1) * zonePgs z.ssd.sp z.zp

/-- The number of the unit of `n` pages of the zone that `lpn` is in. -/
def unitOf (n lpn : Nat) : Nat := (lpn - zid * zonePgs z.ssd.sp z.zp) / n

/-- The one-shot page of `lpn` is one of the `dies_per_zone` ones of the zone from the `j`-th on. -/
def InStripe (j lpn : Nat) : Prop :=
  j ≤ unitOf z zid z.ssd.sp.pgsPerOneshotpg lpn ∧
    unitOf z zid z.ssd.sp.pgsPerOneshotpg lpn < j + z.zp.diesPerZone

instance (lpn : Nat) : Decidable (InZone z zid lpn) := inferInstanceAs (Decidable (_ ∧ _))

instance (j lpn : Nat) : Decidable (InStripe z zid j lpn) := inferInstanceAs (Decidable (_ ∧ _))

/-- The pages of `r`, one at least, are in one unit of `n` pages and on one die. -/
def OnUnit (n : Nat) (r : Span) : Prop :=
  0 < r.len ∧ ∃ unit die, ∀ lpn, r.Has lpn → unitOf z zid n lpn = unit ∧ (lpnToPpa z lpn).die = die

end Zone

/-! ## The turns of the loops -/

section Turns

variable (z : ZnsFtl τ) (B : PerfModel τ)

/-- The pages to the end of the one-shot page. -/
def writeRoom (lpn : Nat) : Nat :=
  z.ssd.sp.pgsPerOneshotpg - (lpnToPpa z lpn).pg % z.ssd.sp.pgsPerOneshotpg

/-- The pages to the end of the flash page. -/
def readRoom (lpn : Nat) : Nat :=
  z.ssd.sp.pgsPerFlashpg - (lpnToPpa z lpn).pg % z.ssd.sp.pgsPerFlashpg

/-- A turn of the loop of `__zns_write` on the pages `r`. -/
def writeTurn (sqId stime zoneElpn : Nat) (ref : BufferRef) (s : FlushState τ) (r : Span) :
    FlushState τ :=
  let sp := z.ssd.sp
  let ppa := lpnToPpa z r.start
  if ppa.pg % sp.pgsPerOneshotpg + r.len = sp.pgsPerOneshotpg ∨ r.start + r.len - 1 = zoneElpn then
    let unalignedSpace := z.zp.zoneSize % (sp.pgsPerOneshotpg * sp.pgsz)
    let bufs :=
      if r.start + r.len - 1 = zoneElpn ∧ unalignedSpace > 0 then unalignedSpace
      else sp.pgsPerOneshotpg * sp.pgsz
    flushOneshot z B sqId stime ref bufs ppa s
  else s

/-- A turn of the loop of `zns_read` on the pages `r`. -/
def readTurn (stime : Nat) (s : Nat × τ) (r : Span) : Nat × τ :=
  let (nsecsCompleted, perf) := B.advanceNand s.2
    { type := .userIo, cmd := .read, stime, ppa := lpnToPpa z r.start
      xferSize := r.len * z.ssd.sp.pgsz }
  (max nsecsCompleted s.1, perf)

theorem writeLoop_eq (sqId stime zoneElpn : Nat) (ref : BufferRef) (elpn fuel lpn : Nat)
    (s : FlushState τ) :
    writeLoop z B sqId stime zoneElpn ref elpn fuel lpn s =
      (cut (writeRoom z) (elpn + 1) fuel lpn).foldl (writeTurn z B sqId stime zoneElpn ref) s := by
  induction fuel generalizing lpn s with
  | zero => rfl
  | succ fuel ih =>
    unfold writeLoop cut
    by_cases h : lpn ≤ elpn
    · have hlen : min (elpn + 1 - lpn) (writeRoom z lpn) = min (elpn - lpn + 1) (writeRoom z lpn) := by
        rw [Nat.succ_sub h]
      rw [if_pos h, if_pos (Nat.lt_succ_of_le h), List.foldl_cons, hlen, ← ih]
      rfl
    · rw [if_neg h, if_neg (by omega)]
      rfl

theorem readLoop_eq (stime elpn fuel lpn nsecsLatest : Nat) (perf : τ) :
    readLoop B z stime elpn fuel lpn nsecsLatest perf =
      (cut (readRoom z) (elpn + 1) fuel lpn).foldl (readTurn z B stime) (nsecsLatest, perf) := by
  induction fuel generalizing lpn nsecsLatest perf with
  | zero => rfl
  | succ fuel ih =>
    unfold readLoop cut
    by_cases h : lpn ≤ elpn
    · have hlen : min (elpn + 1 - lpn) (readRoom z lpn) = min (elpn - lpn + 1) (readRoom z lpn) := by
        rw [Nat.succ_sub h]
      rw [if_pos h, if_pos (Nat.lt_succ_of_le h), List.foldl_cons, hlen, ← ih]
      rfl
    · rw [if_neg h, if_neg (by omega)]
      rfl

end Turns

/-! ## The dies of a zone -/

section Stripes

variable {sp : SsdParams} {zp : ZnsParams} {z : ZnsFtl τ} {zid lpn lpn' : Nat}

/-- The number in the device of the `i`-th die of a zone. -/
def zoneDie (sp : SsdParams) (zp : ZnsParams) (zid i : Nat) : Nat :=
  zid * zp.diesPerZone % sp.ttLuns + i

/-- The dies of a zone. -/
def zoneDies (sp : SsdParams) (zp : ZnsParams) (zid : Nat) : Finset (Nat × Nat) :=
  (Finset.range zp.diesPerZone).image fun i =>
    (zoneDie sp zp zid i % sp.nchs, zoneDie sp zp zid i / sp.nchs)

theorem StripeGeometry.diesPos (h : StripeGeometry sp zp) : 0 < zp.diesPerZone :=
  Nat.pos_of_dvd_of_pos h.stripe (by rw [Nat.mul_comm]; exact h.lunsPos)

/-- The first die of a zone is at a multiple of `dies_per_zone`, so that the others exist. -/
theorem StripeGeometry.zoneDie_lt (h : StripeGeometry sp zp) (zid : Nat) {i : Nat}
    (hi : i < zp.diesPerZone) : zoneDie sp zp zid i < sp.ttLuns := by
  obtain ⟨m, hm⟩ := h.stripe
  have hpos := h.lunsPos
  have hm0 : 0 < m := by
    rcases Nat.eq_zero_or_pos m with rfl | hm0
    · rw [Nat.mul_comm, hm, Nat.mul_zero] at hpos
      omega
    · exact hm0
  unfold zoneDie
  rw [h.luns, Nat.mul_comm sp.lunsPerCh, hm, Nat.mul_comm zid, Nat.mul_mod_mul_left]
  calc zp.diesPerZone * (zid % m) + i < zp.diesPerZone * (zid % m) + zp.diesPerZone := by omega
    _ = zp.diesPerZone * (zid % m + 1) := rfl
    _ ≤ zp.diesPerZone * m := Nat.mul_le_mul_left _ (Nat.mod_lt zid hm0)

/-- A die is its channel and its number there. -/
theorem die_inj {nchs d d' : Nat} (h : (d % nchs, d / nchs) = (d' % nchs, d' / nchs)) : d = d' := by
  rw [Prod.mk.injEq] at h
  rw [← Nat.div_add_mod d nchs, ← Nat.div_add_mod d' nchs, h.1, h.2]

theorem StripeGeometry.zonePgs_bounds (h : StripeGeometry sp zp) :
    0 < zonePgs sp zp ∧ zp.nrZones * zonePgs sp zp < 2 ^ 32 ∧ zp.nrZones < 2 ^ 32 := by
  have hpos := h.zonePos
  have hal := h.aligned
  have hsmall := h.small
  have hle : zp.nrZones * zonePgs sp zp ≤ zp.nrZones * (zp.zoneSize / 512) := by
    unfold zonePgs
    rw [h.sectors.pgsz]
    exact Nat.mul_le_mul_left _ (by omega)
  have hle' : zp.nrZones * 1 ≤ zp.nrZones * (zp.zoneSize / 512) := Nat.mul_le_mul_left _ (by omega)
  refine ⟨?_, by omega, by omega⟩
  unfold zonePgs
  rw [h.sectors.pgsz]
  omega

/-- The numbers of a page of a zone do not wrap. -/
theorem InZone.numbers (h : StripeGeometry sp zp) (hz : Params sp zp z) (hzid : zid < zp.nrZones)
    (hin : InZone z zid lpn) :
    lpn < 2 ^ 32 ∧ lpnToZone z lpn = zid ∧ zoneToSlpn z zid = zid * zonePgs sp zp := by
  obtain ⟨hlo, hhi⟩ := hin
  rw [hz.sp_eq, hz.zp_eq] at hlo hhi
  obtain ⟨hpos, hsmall, hcount⟩ := h.zonePgs_bounds
  have hend : (zid + 1) * zonePgs sp zp ≤ zp.nrZones * zonePgs sp zp := Nat.mul_le_mul_right _ hzid
  refine ⟨by omega, ?_, ?_⟩
  · unfold lpnToZone
    rw [hz.sp_eq, hz.zp_eq, show lpn / (zp.zoneSize / sp.pgsz) = zid from
      Nat.div_eq_of_lt_le hlo hhi, u32_of_lt (by omega)]
  · unfold zoneToSlpn
    rw [hz.sp_eq, hz.zp_eq, u32_of_lt (n := zid) (by omega)]
    exact u32_of_lt (show zid * zonePgs sp zp < 2 ^ 32 by omega)

theorem InZone.unitOf_eq (hz : Params sp zp z) (n : Nat) :
    unitOf z zid n lpn = (lpn - zid * zonePgs sp zp) / n := by
  unfold unitOf
  rw [hz.sp_eq, hz.zp_eq]

/-- The place of the `i`-th die of a zone fits its fields. -/
theorem StripeGeometry.zoneDie_fits (h : StripeGeometry sp zp) (hf : FitsPpa sp) (zid : Nat) {i : Nat}
    (hi : i < zp.diesPerZone) :
    zoneDie sp zp zid i < 2 ^ 16 ∧ zoneDie sp zp zid i % sp.nchs < sp.nchs ∧
      zoneDie sp zp zid i / sp.nchs < sp.lunsPerCh := by
  have hdie := h.zoneDie_lt zid hi
  have hluns : sp.lunsPerCh * sp.nchs ≤ 2 ^ 8 * 2 ^ 8 := Nat.mul_le_mul hf.lun hf.ch
  rw [h.luns] at hdie
  refine ⟨by omega, Nat.mod_lt _ (Nat.pos_of_mul_pos_left h.lunsPos), Nat.div_lt_of_lt_mul ?_⟩
  rwa [Nat.mul_comm]

/-- The number of the first die of a zone does not wrap. -/
theorem StripeGeometry.sdie_eq (h : StripeGeometry sp zp) (hf : FitsPpa sp) (hzid : zid < zp.nrZones) :
    u32 (u64 (zid * zp.diesPerZone) % sp.ttLuns) = zid * zp.diesPerZone % sp.ttLuns := by
  have hcount := h.zonePgs_bounds.2.2
  have hluns : sp.lunsPerCh * sp.nchs ≤ 2 ^ 8 * 2 ^ 8 := Nat.mul_le_mul hf.lun hf.ch
  have hdpz : zp.diesPerZone ≤ sp.nchs * sp.lunsPerCh :=
    Nat.le_of_dvd (by rw [Nat.mul_comm]; exact h.lunsPos) h.stripe
  rw [Nat.mul_comm] at hdpz
  have hmul : zid * zp.diesPerZone < 2 ^ 64 :=
    calc zid * zp.diesPerZone ≤ 2 ^ 32 * 2 ^ 16 := Nat.mul_le_mul (by omega) (by omega)
      _ < 2 ^ 64 := by decide
  have hlt := Nat.mod_lt (zid * zp.diesPerZone) h.lunsPos
  rw [u64_of_lt hmul, h.luns, u32_of_lt (by omega)]

/-- Where a page of a zone is. -/
theorem InZone.lpnToPpa_eq (h : StripeGeometry sp zp) (hf : FitsPpa sp) (hz : Params sp zp z)
    (hzid : zid < zp.nrZones) (hin : InZone z zid lpn) :
    (lpnToPpa z lpn).die =
        (zoneDie sp zp zid (unitOf z zid sp.pgsPerOneshotpg lpn % zp.diesPerZone) % sp.nchs,
          zoneDie sp zp zid (unitOf z zid sp.pgsPerOneshotpg lpn % zp.diesPerZone) / sp.nchs) ∧
      (lpnToPpa z lpn).pg = (lpn - zid * zonePgs sp zp) % sp.pgsPerOneshotpg := by
  obtain ⟨hlt, hzone, hslpn⟩ := hin.numbers h hz hzid
  have hlo := hin.1
  rw [hz.sp_eq, hz.zp_eq] at hlo
  have hoff : sub64 lpn (zid * zonePgs sp zp) = lpn - zid * zonePgs sp zp :=
    sub64_of_le hlo (by omega)
  have hpg := Nat.mod_lt (lpn - zid * zonePgs sp zp) h.oneshotPos
  obtain ⟨hdie, hch, hlun⟩ := h.zoneDie_fits hf zid
    (Nat.mod_lt ((lpn - zid * zonePgs sp zp) / sp.pgsPerOneshotpg) h.diesPos)
  rw [InZone.unitOf_eq hz]
  unfold lpnToPpa dieToLun dieToChannel Ppa.ofFields Ppa.die
  simp only [hz.sp_eq, hz.zp_eq, hzone, hslpn, hoff, h.sdie_eq hf hzid]
  show ((u32 (zoneDie sp zp zid _) % sp.nchs % 2 ^ 8, u32 (zoneDie sp zp zid _) / sp.nchs % 2 ^ 8) :
    Nat × Nat) = _ ∧ _
  have := hf.ch
  have := hf.lun
  have := hf.page
  rw [u32_of_lt (by omega), Nat.mod_eq_of_lt (b := 2 ^ 8) (by omega),
    Nat.mod_eq_of_lt (b := 2 ^ 8) (by omega), Nat.mod_eq_of_lt (b := 2 ^ 16) (by omega)]
  exact ⟨rfl, rfl⟩

/-- The dies of a zone are pairwise different. -/
theorem card_zoneDies (sp : SsdParams) (zp : ZnsParams) (zid : Nat) :
    (zoneDies sp zp zid).card = zp.diesPerZone := by
  unfold zoneDies
  rw [Finset.card_image_of_injective, Finset.card_range]
  intro i j hij
  have := die_inj hij
  unfold zoneDie at this
  omega

/-- Two numbers of a window of `d` that are equal modulo `d` are equal. -/
theorem eq_of_mod_eq {j d x y : Nat} (hx : j ≤ x ∧ x < j + d) (hy : j ≤ y ∧ y < j + d)
    (h : x % d = y % d) : x = y := by
  rcases Nat.le_total x y with hle | hle
  · have hdvd := Nat.dvd_of_mod_eq_zero (Nat.sub_mod_eq_zero_of_mod_eq h.symm)
    have := Nat.eq_zero_of_dvd_of_lt hdvd (by omega)
    omega
  · have hdvd := Nat.dvd_of_mod_eq_zero (Nat.sub_mod_eq_zero_of_mod_eq h)
    have := Nat.eq_zero_of_dvd_of_lt hdvd (by omega)
    omega

/-- Two pages of a zone on one die, less than a stripe apart, are in one one-shot page. -/
theorem InZone.unit_eq (h : StripeGeometry sp zp) (hf : FitsPpa sp) (hz : Params sp zp z)
    (hzid : zid < zp.nrZones) (hin : InZone z zid lpn) (hin' : InZone z zid lpn')
    (hdie : (lpnToPpa z lpn).die = (lpnToPpa z lpn').die) {j : Nat} (hj : InStripe z zid j lpn)
    (hj' : InStripe z zid j lpn') :
    unitOf z zid sp.pgsPerOneshotpg lpn = unitOf z zid sp.pgsPerOneshotpg lpn' := by
  rw [(hin.lpnToPpa_eq h hf hz hzid).1, (hin'.lpnToPpa_eq h hf hz hzid).1] at hdie
  have heq := die_inj hdie
  unfold zoneDie at heq
  unfold InStripe at hj hj'
  rw [hz.sp_eq, hz.zp_eq] at hj hj'
  exact eq_of_mod_eq hj hj' (Nat.add_left_cancel heq)

/-! ## The chunks of the loops -/

/-- The numbers up to the end of a unit. -/
theorem add_div_of_lt_room {n o t : Nat} (hn : 0 < n) (ht : t < n - o % n) : (o + t) / n = o / n := by
  have hmod := Nat.mod_lt o hn
  have heq : o + t = (o % n + t) + n * (o / n) := by
    have := Nat.mod_add_div o n
    omega
  rw [heq, Nat.add_mul_div_left _ _ hn, Nat.div_eq_of_lt (by omega), Nat.zero_add]

/-- A range that starts in a zone and does not leave its unit of `n` pages is on one die, when the
one-shot page is a multiple of the unit. -/
theorem onUnit_of_room (h : StripeGeometry sp zp) (hf : FitsPpa sp) (hz : Params sp zp z)
    (hzid : zid < zp.nrZones) {n : Nat} (hn : 0 < n) (hdvd : n ∣ sp.pgsPerOneshotpg) {r : Span}
    (hlen : 0 < r.len) (hin : ∀ x, r.Has x → InZone z zid x)
    (hroom : r.len ≤ n - (r.start - zid * zonePgs sp zp) % n) : OnUnit z zid n r := by
  have hstart : r.Has r.start := ⟨Nat.le_refl _, by omega⟩
  have hlo := (hin _ hstart).1
  rw [hz.sp_eq, hz.zp_eq] at hlo
  have hunit : ∀ x, r.Has x → unitOf z zid n x = unitOf z zid n r.start := by
    intro x hx
    have hx1 := hx.1
    have hx2 := hx.2
    rw [InZone.unitOf_eq hz, InZone.unitOf_eq hz,
      ← add_div_of_lt_room hn (show x - r.start < n - (r.start - zid * zonePgs sp zp) % n by omega)]
    congr 1
    omega
  refine ⟨hlen, unitOf z zid n r.start, (lpnToPpa z r.start).die, fun x hx => ⟨hunit x hx, ?_⟩⟩
  -- The number of the unit determines the number of the one-shot page, and that the die.
  obtain ⟨m, hm⟩ := hdvd
  have honeshot : unitOf z zid sp.pgsPerOneshotpg x = unitOf z zid sp.pgsPerOneshotpg r.start := by
    have := hunit x hx
    rw [InZone.unitOf_eq hz, InZone.unitOf_eq hz] at *
    rw [hm, ← Nat.div_div_eq_div_mul, ← Nat.div_div_eq_div_mul, this]
  rw [((hin x hx).lpnToPpa_eq h hf hz hzid).1, ((hin _ hstart).lpnToPpa_eq h hf hz hzid).1, honeshot]

/-- The loop that goes to the end of the unit of `n` pages cuts a range of a zone into chunks that are
in one unit each. -/
theorem chunks_onUnit (h : StripeGeometry sp zp) (hf : FitsPpa sp) (hz : Params sp zp z)
    (hzid : zid < zp.nrZones) {n : Nat} (hdvd : n ∣ sp.pgsPerOneshotpg) {slpn elpn : Nat}
    (hs : InZone z zid slpn) (he : InZone z zid elpn) (hle : slpn ≤ elpn) :
    let room lpn := n - (lpnToPpa z lpn).pg % n
    Tiles slpn (cut room (elpn + 1) (elpn + 1 - slpn) slpn) (elpn + 1) ∧
      (∀ r ∈ cut room (elpn + 1) (elpn + 1 - slpn) slpn, OnUnit z zid n r) ∧
      ∀ fuel, elpn + 1 - slpn ≤ fuel →
        cut room (elpn + 1) fuel slpn = cut room (elpn + 1) (elpn + 1 - slpn) slpn := by
  intro room
  have hn : 0 < n := Nat.pos_of_dvd_of_pos hdvd h.oneshotPos
  have hpos (x : Nat) (_ : slpn ≤ x) (_ : x < elpn + 1) : 0 < room x :=
    Nat.sub_pos_of_lt (Nat.mod_lt _ hn)
  refine ⟨cut_tiles hpos (by omega) (Nat.le_refl _), fun r hr => ?_,
    fun fuel hfuel => cut_fuel hpos hfuel (Nat.le_refl _)⟩
  obtain ⟨hlo, hhi, hlen⟩ := mem_cut hr
  have hin (x : Nat) (hx : r.Has x) : InZone z zid x := by
    have h1 := hx.1
    have h2 := hx.2
    have h3 := hs.1
    have h4 := he.2
    exact ⟨by omega, by omega⟩
  have hroompos := hpos r.start hlo hhi
  have hpg := ((hin r.start ⟨Nat.le_refl _, by omega⟩).lpnToPpa_eq h hf hz hzid).2
  refine onUnit_of_room h hf hz hzid hn hdvd (by omega) hin ?_
  have hroom : room r.start = n - (r.start - zid * zonePgs sp zp) % n := by
    show n - (lpnToPpa z r.start).pg % n = _
    rw [hpg, Nat.mod_mod_of_dvd _ hdvd]
  omega

/-! ## The stripes -/

/-- The pages of the zones are on existing dies; the pages of a zone are on `dies_per_zone` dies, the
one-shot pages of a window of that many on different ones; and the loops cut every range of a zone
into chunks of one one-shot page, or one flash page, each. -/
structure Striping (z : ZnsFtl τ) : Prop where
  exist : ∀ zid < z.zp.nrZones, ∀ lpn, InZone z zid lpn →
    (lpnToPpa z lpn).ch < z.ssd.sp.nchs ∧ (lpnToPpa z lpn).lun < z.ssd.sp.lunsPerCh
  dies : ∀ zid < z.zp.nrZones, ∃ dies : Finset (Nat × Nat), dies.card = z.zp.diesPerZone ∧
    (∀ lpn, InZone z zid lpn → (lpnToPpa z lpn).die ∈ dies) ∧
    ∀ j lpn lpn', InZone z zid lpn → InZone z zid lpn' → InStripe z zid j lpn → InStripe z zid j lpn' →
      unitOf z zid z.ssd.sp.pgsPerOneshotpg lpn ≠ unitOf z zid z.ssd.sp.pgsPerOneshotpg lpn' →
        (lpnToPpa z lpn).die ≠ (lpnToPpa z lpn').die
  writes : ∀ zid < z.zp.nrZones, ∀ slpn elpn, InZone z zid slpn → InZone z zid elpn → slpn ≤ elpn →
    ∃ chunks, Tiles slpn chunks (elpn + 1) ∧
      (∀ r ∈ chunks, OnUnit z zid z.ssd.sp.pgsPerOneshotpg r) ∧
      ∀ (B : PerfModel τ) sqId stime zoneElpn ref s fuel, elpn + 1 - slpn ≤ fuel →
        writeLoop z B sqId stime zoneElpn ref elpn fuel slpn s =
          chunks.foldl (writeTurn z B sqId stime zoneElpn ref) s
  reads : ∀ zid < z.zp.nrZones, ∀ slpn elpn, InZone z zid slpn → InZone z zid elpn → slpn ≤ elpn →
    ∃ chunks, Tiles slpn chunks (elpn + 1) ∧
      (∀ r ∈ chunks, OnUnit z zid z.ssd.sp.pgsPerFlashpg r) ∧
      ∀ (B : PerfModel τ) stime nsecsLatest perf fuel, elpn + 1 - slpn ≤ fuel →
        readLoop B z stime elpn fuel slpn nsecsLatest perf =
          chunks.foldl (readTurn z B stime) (nsecsLatest, perf)

/-- The geometry of a namespace that is initialised, with fewer than `2 ^ 32` blocks. -/
theorem stripeGeometry_of_init {scfg : SsdConfig} {cfg : ZnsConfig} {capacity : Nat}
    (hsp : ssdInitParams scfg capacity 1 = .ok sp) (hzp : znsInitParams cfg sp capacity = .ok zp)
    (hdies : 0 < scfg.lunsPerNandCh * scfg.nandChannels) (honeshot : 0 < sp.pgsPerOneshotpg)
    (hzone : cfg.zoneSize < 2 ^ 32) (hsmall : capacity < 2 ^ 32 * 512)
    (hflash : sp.pgsPerFlashpg ∣ sp.pgsPerOneshotpg)
    (hstripe : zp.diesPerZone ∣ sp.nchs * sp.lunsPerCh) : StripeGeometry sp zp := by
  have hw := wide_of_init hsp hzp
  have hluns : sp.ttLuns = sp.lunsPerCh * sp.nchs ∧ sp.lunsPerCh * sp.nchs =
      scfg.lunsPerNandCh * scfg.nandChannels := by
    unfold ssdInitParams at hsp
    simp only [Outcome.bind_ok] at hsp
    obtain ⟨_, _, _, _, _, _, _, _, hsp⟩ := hsp
    cases hsp
    refine ⟨rfl, ?_⟩
    show scfg.lunsPerNandCh * (scfg.nandChannels / 1) = _
    rw [Nat.div_one]
  have hcap : zp.nrZones * zp.zoneSize ≤ capacity := by
    unfold znsInitParams at hzp
    simp only [Outcome.bind_ok] at hzp
    obtain ⟨_, _, _, _, _, _, hzp⟩ := hzp
    cases hzp
    show u32 (capacity / cfg.zoneSize) * u32 cfg.zoneSize ≤ capacity
    rw [u32_of_lt hzone]
    exact (Nat.mul_le_mul_right _ (Nat.mod_le _ _)).trans (Nat.div_mul_le_self _ _)
  refine ⟨hw.sectors, hw.pos, hw.aligned, ?_, hluns.1, hluns.2 ▸ hdies, hstripe, hflash, honeshot⟩
  have hdiv : zp.zoneSize / 512 * 512 ≤ zp.zoneSize := Nat.div_mul_le_self _ _
  have hle : zp.nrZones * (zp.zoneSize / 512 * 512) ≤ zp.nrZones * zp.zoneSize :=
    Nat.mul_le_mul_left _ hdiv
  rw [← Nat.mul_assoc] at hle
  omega

/-- The zones of every such geometry whose dies and one-shot pages fit `struct ppa` are striped. -/
theorem zones_striped (h : StripeGeometry sp zp) (hf : FitsPpa sp) (hz : Params sp zp z) :
    Striping z := by
  have hsp := hz.sp_eq
  have hzp := hz.zp_eq
  constructor
  case exist =>
    intro zid hzid lpn hin
    rw [hzp] at hzid
    have hdie := (hin.lpnToPpa_eq h hf hz hzid).1
    obtain ⟨-, hch, hlun⟩ := h.zoneDie_fits hf zid
      (Nat.mod_lt (unitOf z zid sp.pgsPerOneshotpg lpn) h.diesPos)
    unfold Ppa.die at hdie
    rw [Prod.mk.injEq] at hdie
    rw [hsp, hdie.1, hdie.2]
    exact ⟨hch, hlun⟩
  case dies =>
    intro zid hzid
    rw [hzp] at hzid
    refine ⟨zoneDies sp zp zid, by rw [hzp, card_zoneDies], fun lpn hin => ?_,
      fun j lpn lpn' hin hin' hj hj' hne hdie => hne ?_⟩
    · rw [(hin.lpnToPpa_eq h hf hz hzid).1]
      exact Finset.mem_image_of_mem _ (Finset.mem_range.mpr (Nat.mod_lt _ h.diesPos))
    · rw [hsp]
      exact hin.unit_eq h hf hz hzid hin' hdie hj hj'
  case writes =>
    intro zid hzid slpn elpn hs he hle
    rw [hzp] at hzid
    rw [hsp]
    obtain ⟨htiles, hunit, hfuel⟩ :=
      chunks_onUnit h hf hz hzid (Nat.dvd_refl sp.pgsPerOneshotpg) hs he hle
    refine ⟨_, htiles, hunit, fun B sqId stime zoneElpn ref s fuel hf => ?_⟩
    have hroom : writeRoom z = fun lpn => sp.pgsPerOneshotpg -
        (lpnToPpa z lpn).pg % sp.pgsPerOneshotpg := by
      unfold writeRoom
      rw [hsp]
    rw [writeLoop_eq, hroom, hfuel fuel hf]
  case reads =>
    intro zid hzid slpn elpn hs he hle
    rw [hzp] at hzid
    rw [hsp]
    obtain ⟨htiles, hunit, hfuel⟩ := chunks_onUnit h hf hz hzid h.flash hs he hle
    refine ⟨_, htiles, hunit, fun B stime nsecsLatest perf fuel hf => ?_⟩
    have hroom : readRoom z = fun lpn => sp.pgsPerFlashpg -
        (lpnToPpa z lpn).pg % sp.pgsPerFlashpg := by
      unfold readRoom
      rw [hsp]
    rw [readLoop_eq, hroom, hfuel fuel hf]

end Stripes

theorem zones_striped_znsPrototype :
    Striping (znsInitFtl .znsPrototype .znsPrototype () fun _ => 0 : ZnsFtl Unit) :=
  zones_striped
    (stripeGeometry_of_init ssdInitParams_znsPrototype znsInitParams_znsPrototype (by decide)
      (by decide) (by decide) (by decide) (by decide) (by decide))
    ⟨by decide, by decide, by decide⟩ ⟨rfl, rfl⟩

/-- 512 channels of one die each, and pages of one kind. -/
def manyChannels : SsdConfig :=
  { SsdConfig.znsPrototype with
    nandChannels := 512, lunsPerNandCh := 1, flashPageSize := 4096, oneshotPageSize := 4096
    blkSize := 4096 }

/-- Zones of one page on each of the 512 dies. -/
def wideZones : ZnsConfig := { zoneSize := 2097152, diesPerZone := 512, zoneWbSize := 0 }

/-- The parameters of a device of `manyChannels`. -/
def manyChannelsParams : SsdParams :=
  { SsdParams.znsPrototype with
    pgsPerFlashpg := 1, flashpgsPerBlk := 1, pgsPerOneshotpg := 1, oneshotpgsPerBlk := 1, pgsPerBlk := 1
    lunsPerCh := 1, nchs := 512, pgsPerPl := 1, pgsPerLun := 1, pgsPerCh := 1, ttPgs := 512
    pgsPerLine := 512, blksPerLine := 512, ttLuns := 512 }

/-- One zone of `wideZones`. -/
def wideZonesParams : ZnsParams :=
  { ZnsParams.znsPrototype with
    nrZones := 1, nrActiveZones := 1, nrOpenZones := 1, diesPerZone := 512, zoneSize := 2097152 }

/-- A channel has 8 bits in `struct ppa`: the channels 0 and 256 are one. -/
theorem dies_collide_many_channels :
    ssdInitParams manyChannels 2097152 1 = .ok manyChannelsParams ∧
      znsInitParams wideZones manyChannelsParams 2097152 = .ok wideZonesParams ∧
      StripeGeometry manyChannelsParams wideZonesParams ∧
      ¬ Striping (znsInitFtl manyChannelsParams wideZonesParams () fun _ => 0) := by
  have hsp : ssdInitParams manyChannels 2097152 1 = .ok manyChannelsParams := by decide
  have hzp : znsInitParams wideZones manyChannelsParams 2097152 = .ok wideZonesParams := by decide
  refine ⟨hsp, hzp, stripeGeometry_of_init hsp hzp (by decide) (by decide) (by decide) (by decide)
    (by decide) (by decide), fun h => ?_⟩
  obtain ⟨dies, -, -, hdiff⟩ := h.dies 0 (by decide)
  exact hdiff 0 0 256 (by decide) (by decide) (by decide) (by decide) (by decide) (by decide)

end Zns

end Nvmev
