import NvmeVirt.Zns.Device
import NvmeVirt.Zns.Frame

/-!
# The random write area

What the commands do to the ZRWA resource of a namespace of any size.

* `zrwa_resource_accounting`: the resource is the number of active zones with a random write area, as
  long as no write fills such a zone: `__increase_write_ptr` does not give the resource back.
-/

namespace Nvmev

open CInt Function Tally Outcome

namespace Zns

variable {τ : Type}

/-- A namespace as `ssd_init_params` and `zns_init_params` build it, of any size. -/
structure Wide (sp : SsdParams) (zp : ZnsParams) : Prop where
  sectors : sp.Sectors
  aligned : zp.zoneSize % 4096 = 0
  pos : 0 < zp.zoneSize
  zoneLt : zp.zoneSize < 2 ^ 32
  count : zp.nrZones < 2 ^ 32
  zrwaLt : zp.lbasPerZrwa < 2 ^ 32

theorem wide_of_init {scfg : SsdConfig} {cfg : ZnsConfig} {capacity : Nat} {sp : SsdParams}
    {zp : ZnsParams} (hsp : ssdInitParams scfg capacity 1 = .ok sp)
    (hzp : znsInitParams cfg sp capacity = .ok zp) : Wide sp zp := by
  have hs := ssdInitParams_sectors hsp
  unfold znsInitParams at hzp
  simp only [Outcome.bind_ok] at hzp
  obtain ⟨_, hne, _, _, _, hal, hzp⟩ := hzp
  have hne' := Outcome.ensure_ok.mp hne
  have hal' := Outcome.ensure_ok.mp hal
  rw [hs.pgsz] at hal'
  cases hzp
  exact ⟨hs, hal', Nat.pos_of_ne_zero hne', u32_lt _, u32_lt _, u32_lt _⟩

/-- The command addresses existing zones. -/
def OnZones (zp : ZnsParams) : ZnsRequest → Prop
  | .rw req => InNs zp req.cmd.slba
  | .zoneMgmtSend cmd _ _ => cmd.selectAll = false → InNs zp cmd.slba

/-- The parameters of a state. -/
structure Params (sp : SsdParams) (zp : ZnsParams) (z : ZnsFtl τ) : Prop where
  sp_eq : z.ssd.sp = sp
  zp_eq : z.zp = zp

/-- The zones one after the other. -/
structure Placed (sp : SsdParams) (zp : ZnsParams) (z : ZnsFtl τ) : Prop extends Params sp zp z where
  zone : ∀ i, i < zp.nrZones →
    ((z.zoneDescs i).zslba = i * (zp.zoneSize / 512) ∧
      (z.zoneDescs i).zoneCapacity = zp.zoneSize / 512) ∧
    ((z.zoneDescs i).state = .empty → (z.zoneDescs i).wp = (z.zoneDescs i).zslba) ∧
    ((z.zoneDescs i).zrwav = true → (z.zoneDescs i).zslba ≤ (z.zoneDescs i).wp)

variable {sp : SsdParams} {zp : ZnsParams} {z z' : ZnsFtl τ} {zid : Nat}
  {mayAdvance : ZoneDescriptor → Nat → Prop} {leak : Prop}

theorem Params.same (h : Params sp zp z) (hsp : z'.ssd.sp = z.ssd.sp) (hzp : z'.zp = z.zp) :
    Params sp zp z' := ⟨hsp.trans h.sp_eq, hzp.trans h.zp_eq⟩

theorem Params.steps (h : Params sp zp z) (hs : Steps mayAdvance leak z z') : Params sp zp z' :=
  h.same hs.params_eq.1 hs.params_eq.2

theorem Placed.same (h : Placed sp zp z) (hsp : z'.ssd.sp = z.ssd.sp) (hzp : z'.zp = z.zp)
    (hd : z'.zoneDescs = z.zoneDescs) : Placed sp zp z' :=
  ⟨h.toParams.same hsp hzp, by rw [hd]; exact h.zone⟩

/-- Only a reset makes a zone empty, and it sets the write pointer to the start of the zone. -/
theorem Change.wp_of_empty {d d' : ZoneDescriptor} (h : Change mayAdvance d d')
    (he : d'.state = .empty) : d'.wp = d'.zslba := by
  cases h with
  | reset => rfl
  | openEmpty _ _ hst | reopen _ hst =>
    simp only at he
    rw [he] at hst
    cases hst
  | advance h _ | flush h _ _ =>
    simp only at he
    rw [he] at h
    cases h
  | _ => cases he

/-- The write pointers of ZRWA zones do not go back. -/
theorem Placed.steps (h : Placed sp zp z)
    (hadv : ∀ d wp, mayAdvance d wp → d.zrwav = true → d.wp ≤ wp) (hs : Steps mayAdvance leak z z') :
    Placed sp zp z' := by
  refine ⟨h.toParams.steps hs, ?_⟩
  refine hs.forall (Q := fun i d => i < zp.nrZones →
    (d.zslba = i * (zp.zoneSize / 512) ∧ d.zoneCapacity = zp.zoneSize / 512) ∧
    (d.state = .empty → d.wp = d.zslba) ∧ (d.zrwav = true → d.zslba ≤ d.wp)) ?_ h.zone
  intro i d d' hc hd hi
  obtain ⟨hbase, hempty, hzrwa⟩ := hd hi
  refine ⟨?_, fun he => hc.wp_of_empty he, fun hv => ?_⟩
  · cases hc <;> exact hbase
  · cases hc with
    | openEmpty hs _ _ => exact Nat.le_of_eq (hempty hs).symm
    | reset => exact Nat.le_refl _
    | advance _ hwp | fill _ hwp | flush _ _ hwp | flushFull _ _ hwp =>
      exact (hzrwa hv).trans (hadv d _ hwp hv)
    | _ => exact hzrwa hv

/-- Where a write pointer may go: forward, on a zone with a random write area. -/
def zrwaAdvance (d : ZoneDescriptor) (wp : Nat) : Prop := d.zrwav = true ∧ d.wp ≤ wp

theorem allowsFlush_zrwaAdvance : AllowsFlush zrwaAdvance zp := by
  intro d slba hlt hv hle _
  exact ⟨hv, by rw [u64_of_lt (by omega)]; omega⟩

/-! ## Addresses -/

section Address

variable (hw : Wide sp zp) (h : Params sp zp z)

include hw

theorem Wide.zoneLbas_bounds : 8 ≤ zp.zoneSize / 512 ∧ zp.zoneSize / 512 < 2 ^ 23 := by
  have h1 := hw.aligned
  have h2 := hw.pos
  have h3 := hw.zoneLt
  omega

theorem InNs.lt_wide {lba : Nat} (hin : InNs zp lba) : lba < 2 ^ 55 := by
  have hz := hw.zoneLbas_bounds
  calc lba < zp.nrZones * (zp.zoneSize / 512) := hin
    _ ≤ 2 ^ 32 * 2 ^ 23 := Nat.mul_le_mul (Nat.le_of_lt hw.count) (Nat.le_of_lt hz.2)
    _ = 2 ^ 55 := rfl

include h

theorem Params.zoneLbas_eq : zoneLbas z = zp.zoneSize / 512 := by
  unfold zoneLbas
  rw [h.zp_eq, h.sp_eq, hw.sectors.secsz]

/-- The zone of a block of the namespace. -/
theorem Params.zone_of_inNs {lba : Nat} (hin : InNs zp lba) :
    lbaToZone z lba = lba / (zp.zoneSize / 512) ∧ lbaToZone z lba < zp.nrZones ∧
      lbaToZone z lba * (zp.zoneSize / 512) ≤ lba ∧
      lba < lbaToZone z lba * (zp.zoneSize / 512) + zp.zoneSize / 512 := by
  have hz := hw.zoneLbas_bounds
  have hq : lba / (zp.zoneSize / 512) < zp.nrZones := by
    refine Nat.div_lt_of_lt_mul ?_
    rw [Nat.mul_comm]
    exact hin
  have he : lbaToZone z lba = lba / (zp.zoneSize / 512) := by
    have := hw.count
    unfold lbaToZone
    rw [h.zoneLbas_eq hw, u32_of_lt (by omega)]
  have hd := Nat.div_add_mod lba (zp.zoneSize / 512)
  have hm := Nat.mod_lt lba (show 0 < zp.zoneSize / 512 by omega)
  rw [Nat.mul_comm] at hd
  rw [he]
  exact ⟨rfl, hq, by omega, by omega⟩

/-- Both zone lookups agree: a zone is a whole number of pages. -/
theorem Params.lpnToZone_eq (lba : Nat) : lpnToZone z (lbaToLpn z lba) = lbaToZone z lba := by
  have ha := hw.aligned
  unfold lpnToZone lbaToLpn lbaToZone
  rw [h.zoneLbas_eq hw, h.zp_eq, h.sp_eq, hw.sectors.pgsz, hw.sectors.secsPerPg,
    Nat.div_div_eq_div_mul]
  congr 2
  omega

/-- A range that passes the boundary check ends in the zone it starts in. -/
theorem Params.range_in_zone {slba nrLba : Nat} (hin : InNs zp slba) (hn : 0 < nrLba)
    (hn' : nrLba ≤ 2 ^ 16) (hb : checkBoundaryError z slba nrLba = true) :
    u64 (slba + nrLba - 1) = slba + nrLba - 1 ∧
      slba + nrLba ≤ lbaToZone z slba * (zp.zoneSize / 512) + zp.zoneSize / 512 := by
  have hlt := InNs.lt_wide hw hin
  have hz := hw.zoneLbas_bounds
  have hc := hw.count
  obtain ⟨-, hzone, hge, hlt'⟩ := h.zone_of_inNs hw hin
  have hu : u64 (slba + nrLba - 1) = slba + nrLba - 1 := u64_of_lt (by omega)
  refine ⟨hu, ?_⟩
  have hb' : lbaToZone z slba = lbaToZone z (u64 (slba + nrLba - 1)) := by
    simpa [checkBoundaryError] using hb
  rw [hu] at hb'
  by_contra hend
  generalize hzid : lbaToZone z slba = zid at *
  -- The end is in a later zone, but not so far that the zone number wraps.
  have hq1 : zid + 1 ≤ (slba + nrLba - 1) / (zp.zoneSize / 512) := by
    rw [Nat.le_div_iff_mul_le (by omega), Nat.succ_mul]
    omega
  have hq2 : (slba + nrLba - 1) / (zp.zoneSize / 512) < zid + 1 + 2 ^ 16 := by
    refine Nat.div_lt_of_lt_mul ?_
    rw [Nat.mul_comm, Nat.add_mul, Nat.succ_mul]
    have : 2 ^ 16 * 8 ≤ 2 ^ 16 * (zp.zoneSize / 512) := Nat.mul_le_mul_left _ hz.1
    omega
  unfold lbaToZone u32 at hb'
  rw [h.zoneLbas_eq hw] at hb'
  omega

end Address

/-- How far a write moves the write pointer of its zone: short of the last block it writes, or to the
end of the zone if that block is the last one and in the area before the write. -/
theorem Placed.nrLbasFlush_cases (hw : Wide sp zp) (h : Placed sp zp z)
    (hfg : 0 < zp.lbasPerZrwafg) (hle : zp.lbasPerZrwafg ≤ zp.lbasPerZrwa)
    {slba nrLba : Nat} (hin : InNs zp slba) (hn : 0 < nrLba) (hn' : nrLba ≤ 2 ^ 16)
    (hz : lbaToZone z slba = zid) (hv : (z.zoneDescs zid).zrwav = true)
    (hwin : InWindow z zid slba nrLba) :
    Partial (nrLbasFlush z zid (z.zoneDescs zid).wp (u64 (slba + nrLba - 1))) fun flush =>
      u64 ((z.zoneDescs zid).wp + u32 flush) = (z.zoneDescs zid).wp + flush ∧
      ((z.zoneDescs zid).wp + flush ≤ u64 (slba + nrLba - 1) ∨
        (flush = u64 (slba + nrLba - 1) + 1 - (z.zoneDescs zid).wp ∧
          u64 (slba + nrLba - 1) = zoneToElba z zid ∧
          u64 (slba + nrLba - 1) < (z.zoneDescs zid).wp + zp.lbasPerZrwa)) := by
  obtain ⟨-, hzn, hge, hlt⟩ := h.zone_of_inNs hw hin
  obtain ⟨hu, hend⟩ := h.range_in_zone hw hin hn hn' hwin.boundary
  have hbound := InNs.lt_wide hw hin
  have hz' := hw.zoneLbas_bounds
  have hzr := hw.zrwaLt
  have hwp := hwin.ge
  rw [hz] at hzn hge hlt hend
  obtain ⟨⟨hslba, -⟩, -, hstart⟩ := h.zone zid hzn
  have hstart := hstart hv
  rw [hslba] at hstart
  unfold nrLbasFlush
  rw [hu, h.zp_eq]
  simp only []
  rw [u64_of_lt (n := (z.zoneDescs zid).wp + zp.lbasPerZrwa) (by omega)]
  split
  · rename_i hbeyond
    refine Partial.bind .ensure fun _ _ => .ret ?_
    have hup := divRoundUp_mul_lt (n := slba + nrLba - 1 - ((z.zoneDescs zid).wp + zp.lbasPerZrwa) + 1) hfg
    generalize divRoundUp (slba + nrLba - 1 - ((z.zoneDescs zid).wp + zp.lbasPerZrwa) + 1)
      zp.lbasPerZrwafg * zp.lbasPerZrwafg = flush at hup ⊢
    rw [u64_of_lt (n := flush) (by omega), u32_of_lt (by omega), u64_of_lt (by omega)]
    exact ⟨rfl, .inl (by omega)⟩
  rename_i hnear
  split
  · rename_i hlast
    refine .ret ?_
    rw [sub64_of_le (by omega) (by omega), u64_of_lt (n := _ - _ + 1) (by omega),
      u32_of_lt (by omega), u64_of_lt (by omega)]
    exact ⟨rfl, .inr ⟨by omega, hlast, by omega⟩⟩
  · refine .ret ⟨?_, .inl (by omega)⟩
    rw [u32_of_lt (by decide), u64_of_lt (by omega)]

/-! ## A command, whatever the random write area -/

/-- A write to a zone without a random write area. -/
theorem Placed.znsWritePlain (B : PerfModel τ) (hc : Counters zp.nrZones z) (h : Placed sp zp z)
    {req : RwRequest} (hz : lbaToZone z req.cmd.slba < zp.nrZones)
    (hv : (z.zoneDescs (lbaToZone z req.cmd.slba)).zrwav = false) :
    Partial (znsWritePlain B z req) fun o => Counters zp.nrZones o.ftl ∧ Placed sp zp o.ftl := by
  intro o ho
  obtain ⟨buf, hs⟩ := hc.znsWritePlain B hz hv o ho
  refine ⟨(hc.same (by simp) (by simp) (by simp)).steps hs,
    (h.same (by simp) (by simp) (by simp)).steps ?_ hs⟩
  intro d wp hadv hv
  rw [hadv.1] at hv
  cases hv

/-- A write to a zone with a random write area. -/
theorem Placed.znsWriteZrwa (hw : Wide sp zp) (hc : Counters zp.nrZones z) (h : Placed sp zp z)
    (B : PerfModel τ) {req : RwRequest} (hin : InNs zp req.cmd.slba)
    (hv : (z.zoneDescs (lbaToZone z req.cmd.slba)).zrwav = true) :
    Partial (znsWriteZrwa B z req) fun o => Steps zrwaAdvance True z o.ftl := by
  have hlt := InNs.lt_wide hw hin
  refine hc.znsWriteZrwa zrwaAdvance True B rfl (h.zone_of_inNs hw hin).2.1 hv ?_
    fun _ _ _ _ _ => trivial
  intro hwin flush st _ _
  have hge := hwin.ge
  have hflush := u32_lt flush
  refine ⟨hv, ?_⟩
  rw [u64_of_lt (by omega)]
  exact Nat.le_add_right _ _

theorem Placed.znsZmgmtSend (hw : Wide sp zp) (hc : Counters zp.nrZones z) (h : Placed sp zp z)
    {junk : Nat} {cmd : ZoneMgmtSend} {nsecsStart : Nat}
    (hin : cmd.selectAll = false → InNs zp cmd.slba) :
    Partial (znsZmgmtSend z junk cmd nsecsStart) fun r => Steps zrwaAdvance leak z r.2 :=
  hc.znsZmgmtSend allowsFlush_zrwaAdvance fun hsel =>
    ⟨(h.zone_of_inNs hw (hin hsel)).2.1, (InNs.lt_wide hw (hin hsel)).trans (by decide)⟩

/-! ## The ZRWA resource -/

/-- The command is a write that fills a zone with a random write area: it passes the checks, its last
block is the last one of the zone, that block is less than `lbas_per_zrwa` after the write pointer,
and the ZRWA buffer of the zone has room for the blocks up to it. -/
def FillsZrwa (z : ZnsFtl τ) : ZnsRequest → Prop
  | .rw req =>
    let zid := lbaToZone z req.cmd.slba
    let d := z.zoneDescs zid
    let elba := u64 (req.cmd.slba + req.cmd.nrLbas - 1)
    (req.cmd.opcode = .write ∨ req.cmd.opcode = .zoneAppend) ∧ d.zrwav = true ∧
      InWindow z zid req.cmd.slba req.cmd.nrLbas ∧ elba = zoneToElba z zid ∧
      elba < d.wp + z.zp.lbasPerZrwa ∧ lbaToByte (elba + 1 - d.wp) ≤ (z.zrwaBuffer zid).remaining
  | .zoneMgmtSend _ _ _ => False

instance (z : ZnsFtl τ) : DecidablePred (FillsZrwa z)
  | .rw _ => by unfold FillsZrwa; infer_instance
  | .zoneMgmtSend _ _ _ => .isFalse id

/-- The ZRWA resource is taken once for every active zone with a random write area. -/
structure ZrwaInv (sp : SsdParams) (zp : ZnsParams) (z : ZnsFtl τ) : Prop where
  counters : Counters zp.nrZones z
  placed : Placed sp zp z
  cnt : (z.resInfos .zrwaZone).acquiredCnt =
    tally (Finset.range zp.nrZones) fun i => (z.zoneDescs i).holdsZrwa

theorem ZrwaInv.same (h : ZrwaInv sp zp z) (hsp : z'.ssd.sp = z.ssd.sp) (hzp : z'.zp = z.zp)
    (hd : z'.zoneDescs = z.zoneDescs) (hr : z'.resInfos = z.resInfos) : ZrwaInv sp zp z' :=
  ⟨h.counters.same hzp hd hr, h.placed.same hsp hzp hd, by rw [hr, hd, h.cnt]⟩

theorem ZrwaInv.steps (h : ZrwaInv sp zp z)
    (hadv : ∀ d wp, mayAdvance d wp → d.zrwav = true → d.wp ≤ wp) (hs : Steps mayAdvance False z z') :
    ZrwaInv sp zp z' :=
  ⟨h.counters.steps hs, h.placed.steps hadv hs, hs.zrwaCnt h.counters h.cnt⟩

theorem ZrwaInv.znsWrite (B : PerfModel τ) (hw : Wide sp zp) (hfg : 0 < zp.lbasPerZrwafg)
    (hle : zp.lbasPerZrwafg ≤ zp.lbasPerZrwa) (h : ZrwaInv sp zp z) {req : RwRequest}
    (hop : req.cmd.opcode = .write ∨ req.cmd.opcode = .zoneAppend) (hin : InNs zp req.cmd.slba)
    (hfill : ¬ FillsZrwa z (.rw req)) :
    Partial (znsWrite B z req) fun o => ZrwaInv sp zp o.ftl := by
  obtain ⟨-, hzn, hge, hlt⟩ := h.placed.zone_of_inNs hw hin
  unfold Nvmev.znsWrite
  rw [h.placed.lpnToZone_eq hw]
  split
  · rename_i hv
    refine (h.counters.znsWritePlain B hzn hv).mono fun o ho => ?_
    obtain ⟨buf, hs⟩ := ho
    refine ZrwaInv.steps (h.same (by simp) (by simp) (by simp) (by simp)) ?_ hs
    intro d wp hadv hv
    rw [hadv.1] at hv
    cases hv
  · rename_i hv
    have hv : (z.zoneDescs (lbaToZone z req.cmd.slba)).zrwav = true := by simpa using hv
    have hn := nrLbas_pos req.cmd
    have hn' := nrLbas_le req.cmd
    have hz := hw.zoneLbas_bounds
    refine (h.counters.znsWriteZrwa zrwaAdvance False B rfl hzn hv ?_ ?_).mono
      fun o ho => h.steps (fun d wp hadv _ => hadv.2) ho
    · intro hwin flush st _ hflush
      obtain ⟨hwp, -⟩ := h.placed.nrLbasFlush_cases hw hfg hle hin hn hn' rfl hv hwin flush hflush
      refine ⟨hv, ?_⟩
      rw [hwp]
      exact Nat.le_add_right _ _
    · intro hwin flush hflush hroom hfull
      obtain ⟨hwp, hcases⟩ := h.placed.nrLbasFlush_cases hw hfg hle hin hn hn' rfl hv hwin flush hflush
      obtain ⟨hu, hend⟩ := h.placed.range_in_zone hw hin hn hn' hwin.boundary
      obtain ⟨⟨hslba, hcap⟩, -, hstart⟩ := h.placed.zone _ hzn
      have hstart := hstart hv
      obtain hshort | ⟨rfl, hlast, harea⟩ := hcases
      · -- The write pointer stays before the last block, and so before the end of the zone.
        rw [hwp, hcap] at hfull
        unfold zoneToSlba at hfull
        rw [h.placed.zoneLbas_eq hw, u32_of_lt (n := lbaToZone z req.cmd.slba) (u32_lt _)] at hfull
        rw [hslba] at hstart
        rw [hu] at hshort
        generalize lbaToZone z req.cmd.slba * (zp.zoneSize / 512) = start at *
        unfold u64 u32 at hfull
        omega
      · exact hfill ⟨hop, hv, hwin, hlast, by rwa [h.placed.zp_eq], hroom⟩

/-- One command that does not fill a zone with a random write area. -/
theorem ZrwaInv.command (B : PerfModel τ) (hw : Wide sp zp) (hfg : 0 < zp.lbasPerZrwafg)
    (hle : zp.lbasPerZrwafg ≤ zp.lbasPerZrwa) (h : ZrwaInv sp zp z) {req : ZnsRequest}
    (hon : OnZones zp req) (hfill : ¬ FillsZrwa z req) :
    Partial (znsProcNvmeIoCmd B z req) (ZrwaInv sp zp) := by
  cases req with
  | rw req =>
    exact znsProcRw_partial B (fun hop => h.znsWrite B hw hfg hle hop hon hfill)
      fun _ => h.same rfl rfl rfl rfl
  | zoneMgmtSend cmd nsecsStart junk =>
    exact Partial.bind (h.placed.znsZmgmtSend hw h.counters hon)
      fun r hr => .ret (h.steps (fun d wp hadv _ => hadv.2) hr)

/-- One event: a completion changes a buffer only. -/
theorem ZrwaInv.step (B : PerfModel τ) (hw : Wide sp zp) (hfg : 0 < zp.lbasPerZrwafg)
    (hle : zp.lbasPerZrwafg ≤ zp.lbasPerZrwa) {s : ZnsDevice τ} (h : ZrwaInv sp zp s.ftl)
    {event : ZnsEvent} (hon : ∀ req, event = .command req → OnZones zp req)
    (hfill : event.IfCommand fun req => ¬ FillsZrwa s.ftl req) :
    Partial (s.step B event) fun s' => ZrwaInv sp zp s'.ftl := by
  refine ZnsDevice.step_partial h (fun req he => ?_) fun op => ?_
  · subst he
    exact h.command B hw hfg hle (hon req rfl) hfill
  · exact h.same (by simp) (by simp) (by simp) (by simp)

theorem counters_init (hw : Wide sp zp) (perf : τ) (storage : Nat → UInt8) :
    Counters zp.nrZones (znsInitFtl sp zp perf storage) := by
  have h0 (p : ZoneDescriptor → Bool) (hp : ∀ i, p (initDescriptor zp i) = false) :
      tally (Finset.range zp.nrZones) (fun i => p (initDescriptor zp i)) = 0 :=
    tally_eq_zero.mpr fun i _ => hp i
  exact ⟨rfl, hw.count, rfl, rfl, rfl, (h0 (fun d => d.state.isActive) fun _ => rfl).symm,
    (h0 (fun d => d.state.isOpen) fun _ => rfl).symm,
    Nat.le_of_eq (h0 (fun d => d.holdsZrwa) fun _ => rfl), Nat.zero_le _, fun _ _ _ => rfl⟩

theorem placed_init (hw : Wide sp zp) (perf : τ) (storage : Nat → UInt8) :
    Placed sp zp (znsInitFtl sp zp perf storage) := by
  have hlba : byteToLba zp.zoneSize = zp.zoneSize / 512 := Nat.shiftRight_eq_div_pow _ _
  refine ⟨⟨rfl, rfl⟩, fun i hi => ⟨⟨?_, hlba⟩, fun _ => rfl, fun _ => Nat.le_refl _⟩⟩
  have hz := hw.zoneLbas_bounds
  have hin : InNs zp (i * (zp.zoneSize / 512)) := Nat.mul_lt_mul_of_pos_right hi (by omega)
  have hlt := InNs.lt_wide hw hin
  change u64 (i * byteToLba zp.zoneSize) = _
  rw [hlba, u64_of_lt (by omega)]

theorem zrwaInv_init (hw : Wide sp zp) (perf : τ) (storage : Nat → UInt8) :
    ZrwaInv sp zp (znsInitFtl sp zp perf storage) :=
  ⟨counters_init hw perf storage, placed_init hw perf storage,
    (tally_eq_zero (p := fun i => (initDescriptor zp i).holdsZrwa) |>.mpr fun _ _ => rfl).symm⟩

end Zns

/-- Zones of 256 KiB that can be one random write area. -/
def ZnsConfig.zrwaZones : ZnsConfig :=
  { zoneSize := 256 * 1024, diesPerZone := 1, zoneWbSize := 0, maxZrwaZones := 4
    zrwafgSize := 128 * 1024, zrwaSize := 256 * 1024, zrwaBufferSize := 256 * 1024 }

/-- The zones of a namespace of 1 MiB. -/
def ZnsParams.zrwaZones : ZnsParams :=
  { nrZones := 4, nrActiveZones := 4, nrOpenZones := 4, diesPerZone := 1, zoneSize := 262144
    zoneWbSize := 0, nrZrwaZones := 4, zrwafgSize := 131072, zrwaSize := 262144
    zrwaBufferSize := 262144, lbasPerZrwafg := 256, lbasPerZrwa := 512 }

theorem ssdInitParams_zrwaZones : ssdInitParams .znsPrototype (2 ^ 20) 1 = .ok .znsPrototype := by decide

theorem znsInitParams_zrwaZones :
    znsInitParams .zrwaZones .znsPrototype (2 ^ 20) = .ok .zrwaZones := by decide

/-- Open zone 0 with a random write area. -/
def openZrwaZone : ZnsRequest := .zoneMgmtSend { slba := 0, zsa := .openZone, zsaso := true } 0 0

/-- Write half of zone 0, which stays in the random write area. -/
def writeHalfZone : ZnsRequest := .rw { cmd := { opcode := .write, slba := 0, length := 255 } }

/-- Write zone 0. -/
def writeWholeZone : ZnsRequest := .rw { cmd := { opcode := .write, slba := 0, length := 511 } }

/-- Zones of 512 KiB with a random write area, and its buffer, of a quarter of that. -/
def ZnsConfig.zrwaQuarters : ZnsConfig :=
  { zoneSize := 512 * 1024, diesPerZone := 1, zoneWbSize := 0, maxZrwaZones := 2
    zrwafgSize := 128 * 1024, zrwaSize := 128 * 1024, zrwaBufferSize := 128 * 1024 }

/-- The zones of a namespace of 1 MiB. -/
def ZnsParams.zrwaQuarters : ZnsParams :=
  { nrZones := 2, nrActiveZones := 2, nrOpenZones := 2, diesPerZone := 1, zoneSize := 524288
    zoneWbSize := 0, nrZrwaZones := 2, zrwafgSize := 131072, zrwaSize := 131072
    zrwaBufferSize := 131072, lbasPerZrwafg := 256, lbasPerZrwa := 256 }

theorem znsInitParams_zrwaQuarters :
    znsInitParams .zrwaQuarters .znsPrototype (2 ^ 20) = .ok .zrwaQuarters := by decide

/-- Write the quarter of zone 0 that starts at `slba`. -/
def writeQuarter (slba : Nat) : ZnsRequest := .rw { cmd := { opcode := .write, slba, length := 255 } }

namespace Zns

variable {τ : Type} {sp : SsdParams} {zp : ZnsParams} {z z' : ZnsFtl τ} {zid : Nat}

/-- A write that starts at or after a write pointer above 0 ends after the empty window. -/
theorem zrwaChecks_off (hoff : z.zp.lbasPerZrwa = 0) {slba nrLba : Nat} (hlt : slba < 2 ^ 55)
    (hn : 0 < nrLba) (hn' : nrLba ≤ 2 ^ 16) (hwp : 0 < (z.zoneDescs zid).wp) :
    ∃ status, zrwaChecks z zid slba nrLba = .ok (some status, z) := by
  unfold Nvmev.zrwaChecks
  simp only []
  split
  · exact ⟨_, rfl⟩
  split
  · exact ⟨_, rfl⟩
  rw [if_pos]
  · exact ⟨_, rfl⟩
  by_cases hslba : slba < (z.zoneDescs zid).wp
  · exact .inl hslba
  · right
    rw [hoff, u64_of_lt (n := slba + nrLba - 1) (by omega), show u32 (2 * 0) = 0 from rfl,
      u64_of_lt (by omega), sub64_of_le (by omega) (by omega)]
    omega

theorem znsWriteZrwa_off (B : PerfModel τ) (hoff : z.zp.lbasPerZrwa = 0) {req : RwRequest}
    (hlt : req.cmd.slba < 2 ^ 55) (hwp : 0 < (z.zoneDescs (lbaToZone z req.cmd.slba)).wp) :
    ∃ o, znsWriteZrwa B z req = .ok o ∧ o.ftl = z := by
  obtain ⟨status, he⟩ := zrwaChecks_off hoff hlt (nrLbas_pos req.cmd) (nrLbas_le req.cmd) hwp
  unfold Nvmev.znsWriteZrwa
  simp only [he, ok_bind]
  exact ⟨_, rfl, rfl⟩

theorem flushExplicit_off (hoff : z.zp.lbasPerZrwa = 0) {slba : Nat} (hlt : slba < 2 ^ 63)
    (hwp : (z.zoneDescs (lbaToZone z slba)).zrwav = true → 0 < (z.zoneDescs (lbaToZone z slba)).wp) :
    zmgmtSendFlushExplicitZrwa z slba = .ok (Sc.znsInvalidZoneOperation, z) := by
  unfold zmgmtSendFlushExplicitZrwa
  simp only []
  split
  · rfl
  rename_i hv
  have hpos := hwp (by simpa using hv)
  rw [if_pos]
  · rfl
  rintro ⟨hge, hle⟩
  rw [le_min_iff, hoff, u64_of_lt (n := _ + 0) (by omega), sub64_of_le (by omega) (by omega)] at hle
  omega

/-- The errors of a plain write are failed assertions. -/
theorem znsWritePlain_error (B : PerfModel τ) {req : RwRequest} {e : Bug}
    (h : znsWritePlain B z req = .error e) : e = .assertion .bufferAllocate := by
  unfold Nvmev.znsWritePlain at h
  simp only [] at h
  cases ha : bufferAllocate (z.buffer (zoneBufferRef z (lbaToZone z req.cmd.slba)))
      (lbaToByte req.cmd.nrLbas) with
  | error e' =>
    rw [ha] at h
    cases h
    unfold bufferAllocate nvmevAssert Outcome.ensure at ha
    split at ha <;> cases ha
    rfl
  | ok r =>
    rw [ha, ok_bind] at h
    split at h
    · cases h
    split at h <;> cases h

/-- A command that opens zone 0 with a random write area. -/
def OpensFirstZrwa (z : ZnsFtl τ) : ZnsRequest → Prop
  | .rw _ => False
  | .zoneMgmtSend cmd _ _ => cmd.zsa = .openZone ∧ cmd.zsaso = true ∧
    (cmd.selectAll = true ∨ lbaToZone z cmd.slba = 0) ∧ (z.zoneDescs 0).state = .empty

instance (z : ZnsFtl τ) : DecidablePred (OpensFirstZrwa z)
  | .rw _ => .isFalse id
  | .zoneMgmtSend _ _ _ => by unfold OpensFirstZrwa; infer_instance

/-- The first zone, whose write pointer can be 0, has no random write area. -/
structure OffInv (sp : SsdParams) (zp : ZnsParams) (z : ZnsFtl τ) : Prop where
  counters : Counters zp.nrZones z
  placed : Placed sp zp z
  first : (z.zoneDescs 0).zrwav = false

/-- The error is a division by zero. -/
def DividesByZero (e : Bug) : Prop := ∃ site, e = .divideByZero site

section Off

variable (hw : Wide sp zp) (hoff : zp.lbasPerZrwa = 0) (h : OffInv sp zp z)

include hw h

theorem OffInv.wp_pos {slba : Nat} (hz : lbaToZone z slba < zp.nrZones)
    (hv : (z.zoneDescs (lbaToZone z slba)).zrwav = true) :
    0 < (z.zoneDescs (lbaToZone z slba)).wp := by
  obtain ⟨⟨hslba, -⟩, -, hstart⟩ := h.placed.zone _ hz
  have hstart := hstart hv
  have hz' := hw.zoneLbas_bounds
  have hne : lbaToZone z slba ≠ 0 := by
    intro h0
    rw [h0, h.first] at hv
    cases hv
  have : 1 * (zp.zoneSize / 512) ≤ lbaToZone z slba * (zp.zoneSize / 512) :=
    Nat.mul_le_mul_right _ (Nat.one_le_iff_ne_zero.mpr hne)
  omega

include hoff

theorem OffInv.znsWrite (B : PerfModel τ) {req : RwRequest} (hin : InNs zp req.cmd.slba) :
    Avoids DividesByZero (znsWrite B z req) fun o => OffInv sp zp o.ftl := by
  obtain ⟨-, hzn, -, -⟩ := h.placed.zone_of_inNs hw hin
  unfold Nvmev.znsWrite
  rw [h.placed.lpnToZone_eq hw]
  split
  · rename_i hv
    refine ⟨fun e he => ?_, fun o ho => ?_⟩
    · rw [znsWritePlain_error B he]
      rintro ⟨site, hsite⟩
      cases hsite
    · obtain ⟨hc, hp⟩ := h.placed.znsWritePlain B h.counters hzn hv o ho
      exact ⟨hc, hp, by rw [(znsWritePlain_zone B 0 o ho).1, h.first]⟩
  · rename_i hv
    obtain ⟨o, ho, hftl⟩ := znsWriteZrwa_off B (by rw [h.placed.zp_eq, hoff]) (InNs.lt_wide hw hin)
      (h.wp_pos hw hzn (by simpa using hv))
    rw [ho]
    exact .ret (by rwa [hftl])

/-- One management action that does not open zone 0 with a random write area. -/
theorem OffInv.zmgmtSend {junk slba : Nat} (hlt : slba < 2 ^ 63) (hz : lbaToZone z slba < zp.nrZones)
    {action : ZoneSendAction} {option : Bool}
    (hopen : ¬ (action = .openZone ∧ option = true ∧ lbaToZone z slba = 0 ∧
      (z.zoneDescs 0).state = .empty)) :
    Avoids DividesByZero (zmgmtSend z junk slba action option) fun r => OffInv sp zp r.2 ∧
      (action = .openZone → (r.2.zoneDescs 0).state = .empty → (z.zoneDescs 0).state = .empty) := by
  refine ⟨fun e he => ?_, fun r hr => ?_⟩
  · unfold Nvmev.zmgmtSend at he
    rw [flushExplicit_off (by rw [h.placed.zp_eq, hoff]) hlt (h.wp_pos hw hz)] at he
    cases action <;> cases he
  have hs : Steps zrwaAdvance False z r.2 :=
    h.counters.zmgmtSend allowsFlush_zrwaAdvance hlt hz action option r hr
  have hinv : Counters zp.nrZones r.2 ∧ Placed sp zp r.2 :=
    ⟨h.counters.steps hs, h.placed.steps (fun d wp hadv _ => hadv.2) hs⟩
  obtain hk | ⟨rfl, h0⟩ | ⟨hact, hopt, h0, hemp, -⟩ :=
    zmgmtSend_keeps (i := 0) junk slba action option r hr
  · exact ⟨⟨hinv.1, hinv.2, hk.zrwav.trans h.first⟩, fun _ => hk.empty⟩
  · refine ⟨⟨hinv.1, hinv.2, ?_⟩, fun ha => by cases ha⟩
    cases hr
    unfold zmgmtSendResetZone
    rw [← h0]
    split <;> simp [h.first]
  · exact absurd ⟨hact, hopt, h0.symm, hemp⟩ hopen

theorem OffInv.znsZmgmtSend {junk : Nat} {cmd : ZoneMgmtSend} {nsecsStart : Nat}
    (hin : cmd.selectAll = false → InNs zp cmd.slba)
    (hopen : ¬ OpensFirstZrwa z (.zoneMgmtSend cmd nsecsStart junk)) :
    Avoids DividesByZero (znsZmgmtSend z junk cmd nsecsStart) fun r => OffInv sp zp r.2 := by
  unfold Nvmev.znsZmgmtSend
  split
  · rename_i hsel
    -- In the loop zone 0 does not become empty, if the action is to open.
    refine Avoids.bind (Q := fun z' => OffInv sp zp z' ∧ (cmd.zsa = .openZone → cmd.zsaso = true →
      (z'.zoneDescs 0).state ≠ .empty)) ?_ fun z' h' => .ret h'.1
    refine Avoids.foldlM ⟨h, fun ha hz he => hopen ⟨ha, hz, .inl hsel, he⟩⟩ fun z' h' zid hzid => ?_
    have hlt : zid < zp.nrZones := by simpa [h.placed.zp_eq] using hzid
    refine Avoids.bind (h'.1.zmgmtSend hw hoff ((u32_lt _).trans (by decide))
      (lbaToZone_zoneToSlba_lt hlt hw.count) fun hc => h'.2 hc.1 hc.2.1 hc.2.2.2) fun r hr => ?_
    exact .ret ⟨hr.1, fun ha hz he => h'.2 ha hz (hr.2 ha he)⟩
  · rename_i hsel
    have hin := hin (by simpa using hsel)
    refine Avoids.bind (h.zmgmtSend hw hoff ((InNs.lt_wide hw hin).trans (by decide))
      (h.placed.zone_of_inNs hw hin).2.1 fun hc => ?_) fun r hr => .ret hr.1
    exact hopen ⟨hc.1, hc.2.1, .inr hc.2.2.1, hc.2.2.2⟩

theorem OffInv.command (B : PerfModel τ) {req : ZnsRequest} (hon : OnZones zp req)
    (hopen : ¬ OpensFirstZrwa z req) :
    Avoids DividesByZero (znsProcNvmeIoCmd B z req) (OffInv sp zp) := by
  cases req with
  | rw req =>
    exact znsProcRw_avoids B (fun _ => h.znsWrite hw hoff B hon)
      fun _ => ⟨h.counters.same rfl rfl rfl, h.placed.same rfl rfl rfl, h.first⟩
  | zoneMgmtSend cmd nsecsStart junk =>
    exact Avoids.bind (h.znsZmgmtSend hw hoff hon hopen) fun r hr => .ret hr

omit h in
theorem OffInv.step (B : PerfModel τ) {s : ZnsDevice τ} (h : OffInv sp zp s.ftl) {event : ZnsEvent}
    (hon : ∀ req, event = .command req → OnZones zp req)
    (hopen : event.IfCommand fun req => ¬ OpensFirstZrwa s.ftl req) :
    Avoids DividesByZero (s.step B event) fun s' => OffInv sp zp s'.ftl := by
  refine ZnsDevice.step_avoids h (fun req he => ?_) fun op => ?_
  · subst he
    exact h.command hw hoff B (hon req rfl) hopen
  · exact ⟨h.counters.same (by simp) (by simp) (by simp), h.placed.same (by simp) (by simp) (by simp),
      by simp [h.first]⟩

end Off

end Zns

/-- With `ZRWA_SIZE` 0 a run of commands and completions, in any order, stops with no division by zero,
as long as no command opens zone 0 with a random write area: the limit of that resource is the number of
zones, not `MAX_ZRWA_ZONES`. -/
theorem zrwa_disabled_no_division {τ : Type} (B : PerfModel τ) {scfg : SsdConfig} {cfg : ZnsConfig}
    {sp : SsdParams} {zp : ZnsParams} {capacity : Nat}
    (hsp : ssdInitParams scfg capacity 1 = .ok sp) (hzp : znsInitParams cfg sp capacity = .ok zp)
    (hoff : cfg.zrwaSize = 0) (perf : τ) (storage : Nat → UInt8) (events : List ZnsEvent)
    (hon : ∀ req, ZnsEvent.command req ∈ events → Zns.OnZones zp req)
    (hopen : Always (ZnsDevice.step B)
      (fun s event => event.IfCommand fun req => ¬ Zns.OpensFirstZrwa s.ftl req)
      { ftl := znsInitFtl sp zp perf storage } events) (site : Site) :
    events.foldlM (ZnsDevice.step B) { ftl := znsInitFtl sp zp perf storage } ≠
      .error (.divideByZero site) := by
  have hw := Zns.wide_of_init hsp hzp
  have hoff' : zp.lbasPerZrwa = 0 := by
    unfold znsInitParams at hzp
    simp only [Outcome.bind_ok] at hzp
    obtain ⟨_, -, _, -, _, -, hzp⟩ := hzp
    cases hzp
    simp [hoff, u32]
  have hinit : Zns.OffInv sp zp (znsInitFtl sp zp perf storage) :=
    ⟨Zns.counters_init hw perf storage, Zns.placed_init hw perf storage, rfl⟩
  have hrun : Avoids Zns.DividesByZero
      (events.foldlM (ZnsDevice.step B) { ftl := znsInitFtl sp zp perf storage })
      fun s => Zns.OffInv sp zp s.ftl :=
    Avoids.always hinit hopen fun s h event hmem hP =>
      h.step hw hoff' B (fun req he => hon req (he ▸ hmem)) hP
  exact fun he => hrun.safe _ he ⟨site, rfl⟩

/-- A write to zone 0 that is accepted and its operation, and zone 1 opened with a random write area and
written. -/
theorem zrwa_disabled_no_division_zoneOne :
    [.command writeHalfZone, .complete 0,
      .command (.zoneMgmtSend { slba := 65536, zsa := .openZone, zsaso := true } 0 0),
      .command (.rw { cmd := { opcode := .write, slba := 65536, length := 255 } })].foldlM
      (ZnsDevice.step .instant) { ftl := znsInitFtl .znsPrototype .znsPrototype () fun _ => 0 } ≠
      .error (.divideByZero .znsWriteZrwa) :=
  zrwa_disabled_no_division .instant ssdInitParams_znsPrototype znsInitParams_znsPrototype rfl ()
    (fun _ => 0) _ (by simp [writeHalfZone, Zns.OnZones, Zns.InNs, ZnsParams.znsPrototype])
    (by decide +kernel) .znsWriteZrwa

/-- A `ZNS_PROTOTYPE` stops with a division by zero in the write after zone 0 was opened with a random
write area. -/
theorem zrwa_disabled_divides : ¬ ∀ site,
    [.command openZrwaZone, .command writeHalfZone].foldlM (ZnsDevice.step .instant)
      { ftl := znsInitFtl .znsPrototype .znsPrototype () fun _ => 0 } ≠ .error (.divideByZero site) := by
  intro h
  exact h .znsWriteZrwa (by decide)

end Nvmev
