import NvmeVirt.Zns.Coverage

/-!
# Zone addresses and descriptors

`__init_descriptor` sums the zone sizes in 64 bits; `zone_to_slba` and `zone_to_slpn` multiply two
32-bit values and return 64 bits, and `lba_to_zone` cuts a 64-bit quotient to 32 bits. The two agree
for the zones below block `2 ^ 32` (`Low`).
-/

namespace Nvmev

open CInt

namespace Zns

variable {τ : Type}

/-- The address helpers agree with the descriptor of zone `i`, for the block `lba`. -/
structure AddressAgrees (z : ZnsFtl τ) (i lba : Nat) : Prop where
  slba : zoneToSlba z i = (z.zoneDescs i).zslba
  elba : zoneToElba z i = (z.zoneDescs i).zslba + (z.zoneDescs i).zoneCapacity - 1
  slpn : zoneToSlpn z i = (z.zoneDescs i).zslba / z.ssd.sp.secsPerPg
  zone : lbaToZone z lba = i ↔
    (z.zoneDescs i).zslba ≤ lba ∧ lba < (z.zoneDescs i).zslba + (z.zoneDescs i).zoneCapacity

/-- The number of the zone of `lba` is one of 32 bits, or its low half is not `i`. -/
def NoAlias (zp : ZnsParams) (i lba : Nat) : Prop :=
  lba / (zp.zoneSize / 512) < 2 ^ 32 ∨ lba / (zp.zoneSize / 512) % 2 ^ 32 ≠ i

section Helpers

variable {sp : SsdParams} {zp : ZnsParams} {z : ZnsFtl τ} {i : Nat}
  (hw : Wide sp zp) (h : Params sp zp z)

include hw h

/-- The end of a zone, one block before the truncated start of the next. -/
theorem Params.zoneToElba_eq (hi : i < zp.nrZones) :
    zoneToElba z i = sub64 ((i + 1) * (zp.zoneSize / 512) % 2 ^ 32) 1 := by
  have hc := hw.count
  unfold zoneToElba zoneToSlba
  rw [h.zoneLbas_eq hw, u32_of_lt (n := i + 1) (by omega), u32_of_lt (n := i + 1) (by omega)]
  rfl

theorem Params.lbaToZone_eq_mod (lba : Nat) :
    lbaToZone z lba = lba / (zp.zoneSize / 512) % 2 ^ 32 := by
  unfold lbaToZone
  rw [h.zoneLbas_eq hw]
  rfl

/-- The first page of a zone below block `2 ^ 32`. -/
theorem Low.zoneToSlpn_eq (hi : Low zp i) :
    zoneToSlpn z i = i * (zp.zoneSize / 512) / 8 := by
  have hc := hw.count
  have hal := hw.aligned
  have hlt := hi.lt
  have hfits := hi.fits
  have hlbas : zp.zoneSize / 512 = 8 * (zp.zoneSize / 4096) := by omega
  have hmul : i * (zp.zoneSize / 512) = 8 * (i * (zp.zoneSize / 4096)) := by
    rw [hlbas, Nat.mul_left_comm]
  unfold zoneToSlpn
  rw [h.zp_eq, h.sp_eq, hw.sectors.pgsz, u32_of_lt (n := i) (by omega), hmul,
    Nat.mul_div_cancel_left _ (by decide), u32_of_lt (by omega)]

/-- The truncated end of a zone is its end only below block `2 ^ 32`. -/
theorem Params.zoneToElba_eq_iff (hi : i < zp.nrZones) :
    zoneToElba z i = i * (zp.zoneSize / 512) + zp.zoneSize / 512 - 1 ↔ Low zp i := by
  have hz := hw.zoneLbas_bounds
  rw [h.zoneToElba_eq hw hi, Nat.succ_mul]
  constructor
  · intro he
    refine ⟨hi, ?_⟩
    by_contra hbig
    have hlt : i * (zp.zoneSize / 512) + zp.zoneSize / 512 < 2 ^ 63 := by
      have := InNs.lt_wide hw (Nat.mul_lt_mul_of_pos_right hi (by omega))
      omega
    unfold sub64 u64 at he
    omega
  · intro hlow
    have hfits := hlow.fits
    rw [Nat.mod_eq_of_lt hfits, sub64_of_le (by omega) (by omega)]

end Helpers

section Descriptors

variable {sp : SsdParams} {zp : ZnsParams} {z : ZnsFtl τ} {i : Nat}

/-- The blocks of a zone are those whose quotient by the zone size is its number. -/
theorem Placed.mem_iff (hw : Wide sp zp) (h : Placed sp zp z) (hi : i < zp.nrZones) (lba : Nat) :
    ((z.zoneDescs i).zslba ≤ lba ∧ lba < (z.zoneDescs i).zslba + (z.zoneDescs i).zoneCapacity) ↔
      lba / (zp.zoneSize / 512) = i := by
  have hz := hw.zoneLbas_bounds
  obtain ⟨⟨hslba, hcap⟩, -⟩ := h.zone i hi
  rw [hslba, hcap, Nat.div_eq_iff (by omega)]
  omega

/-- In every state: the helpers agree with the descriptor of a zone exactly when the zone ends below
block `2 ^ 32` and the block is not one whose zone number is cut to that of the zone. -/
theorem Placed.addressAgrees_iff (hw : Wide sp zp) (h : Placed sp zp z) (hi : i < zp.nrZones)
    (lba : Nat) : AddressAgrees z i lba ↔ Low zp i ∧ NoAlias zp i lba := by
  obtain ⟨⟨hslba, hcap⟩, -⟩ := h.zone i hi
  have hp := h.toParams
  constructor
  · intro ha
    have helba := ha.elba
    rw [hslba, hcap] at helba
    refine ⟨(hp.zoneToElba_eq_iff hw hi).mp helba, ?_⟩
    by_contra hn
    obtain ⟨hge, heq⟩ := not_or.mp hn
    have hzone : lba / (zp.zoneSize / 512) = i :=
      (h.mem_iff hw hi lba).mp (ha.zone.mp (by rw [hp.lbaToZone_eq_mod hw]; exact not_not.mp heq))
    have hc := hw.count
    omega
  · rintro ⟨hlow, hn⟩
    refine ⟨?_, ?_, ?_, ?_⟩
    · rw [hlow.zoneToSlba_eq hw hp, hslba]
    · rw [hslba, hcap]
      exact (hp.zoneToElba_eq_iff hw hi).mpr hlow
    · rw [hlow.zoneToSlpn_eq hw hp, hslba, hp.sp_eq, hw.sectors.secsPerPg]
    · rw [h.mem_iff hw hi, hp.lbaToZone_eq_mod hw]
      have hc := hw.count
      obtain hlt | hne := hn
      · rw [Nat.mod_eq_of_lt hlt]
      · exact ⟨fun he => absurd he hne, fun he => by rw [he]; exact Nat.mod_eq_of_lt (by omega)⟩

end Descriptors

end Zns

/-- For every namespace that `zns_init_params` accepts, every zone and every block: the helpers agree
with the descriptors exactly when the zone ends below block `2 ^ 32` and the zone number of the block
is not cut to that of the zone. -/
theorem address_agrees_iff {τ : Type} {scfg : SsdConfig} {cfg : ZnsConfig} {capacity : Nat}
    {sp : SsdParams} {zp : ZnsParams} (hsp : ssdInitParams scfg capacity 1 = .ok sp)
    (hzp : znsInitParams cfg sp capacity = .ok zp) (perf : τ) (storage : Nat → UInt8)
    {zid : Nat} (hz : zid < zp.nrZones) (lba : Nat) :
    Zns.AddressAgrees (znsInitFtl sp zp perf storage) zid lba ↔
      Zns.Low zp zid ∧ Zns.NoAlias zp zid lba :=
  (Zns.placed_init (Zns.wide_of_init hsp hzp) perf storage).addressAgrees_iff
    (Zns.wide_of_init hsp hzp) hz lba

theorem address_agrees_iff_four_zones :
    Zns.AddressAgrees (znsInitFtl .znsPrototype .znsPrototype () fun _ => 0) 3 262143 ↔
      Zns.Low .znsPrototype 3 ∧ Zns.NoAlias .znsPrototype 3 262143 :=
  address_agrees_iff ssdInitParams_znsPrototype znsInitParams_znsPrototype () _ (by decide) _

/-- The last of the 65536 zones of a `ZNS_PROTOTYPE` of 2 TiB ends at block `2 ^ 32`: its
`zone_to_elba` is `0 - 1`. -/
theorem last_zone_address :
    ∃ sp zp, ssdInitParams .znsPrototype (2 ^ 41) 1 = .ok sp ∧
      znsInitParams .znsPrototype sp (2 ^ 41) = .ok zp ∧ 65535 < zp.nrZones ∧
      zoneToElba (znsInitFtl sp zp () fun _ => 0) 65535 = 2 ^ 64 - 1 ∧
      ¬ Zns.AddressAgrees (znsInitFtl sp zp () fun _ => 0) 65535 0 := by
  refine ⟨_, _, rfl, rfl, by decide, by decide, fun h => ?_⟩
  have helba := h.elba
  revert helba
  decide

end Nvmev
