import NvmeVirt.Zns.Device
import NvmeVirt.Zns.Steps

/-!
# The zone state machine over runs

The write paths and the dispatcher keep `Zns.Inv`; so every state that commands and completions of
internal operations reach from `zns_init_ftl` satisfies it (`zone_state_machine`).
-/

namespace Nvmev

open CInt Function Tally Outcome

namespace Zns

variable {τ : Type} {sp : SsdParams} {zp : ZnsParams} {z z' : ZnsFtl τ} {zid : Nat}

/-! ## Moving the write pointer -/

/-- The end of a zone, as the handlers compute it after they changed a descriptor. -/
theorem Inv.zoneEnd_eq (hl : Layout sp zp) (h : Inv sp zp z) (hz : zid < zp.nrZones)
    {d : ZoneDescriptor} :
    u64 (zoneToSlba (z.setDesc zid d) zid + (z.zoneDescs zid).zoneCapacity) =
      zid * (zp.zoneSize / 512) + zp.zoneSize / 512 := by
  have hend := hl.mul_lt hz
  change u64 (zoneToSlba z zid + _) = _
  rw [h.zoneToSlba_eq hl hz, h.capacity zid hz, u64_of_lt (by omega)]

/-- `__increase_write_ptr` on an open zone, by at most the rest of the zone. -/
theorem increaseWritePtr_inv (hl : Layout sp zp) (h : Inv sp zp z) (hz : zid < zp.nrZones)
    (hopen : (z.zoneDescs zid).state.isOpen = true) {n : Nat}
    (hn : (z.zoneDescs zid).wp + u32 n ≤ (z.zoneDescs zid).zslba + (z.zoneDescs zid).zoneCapacity) :
    Inv sp zp (increaseWritePtr z zid n) := by
  have hact : (z.zoneDescs zid).state.isActive = true := by
    revert hopen; cases (z.zoneDescs zid).state <;> simp [ZoneState.isActive, ZoneState.isOpen]
  have hok : (z.zoneDescs zid).zslba ≤ (z.zoneDescs zid).wp := by
    have := h.zone zid hz
    revert hopen this
    unfold ZoneOk
    cases (z.zoneDescs zid).state <;> simp [ZoneState.isOpen] <;> omega
  have hend := hl.mul_lt hz
  rw [h.zslba zid hz, h.capacity zid hz] at hn
  unfold increaseWritePtr
  simp only []
  set wp' := u64 ((z.zoneDescs zid).wp + u32 n) with hwp
  have hwp' : wp' = (z.zoneDescs zid).wp + u32 n := u64_of_lt (by omega)
  rw [h.zoneEnd_eq hl hz]
  split
  · rename_i hfull
    refine h.deactivate (d := { z.zoneDescs zid with state := .full, wp := wp' }) hl hz hact
      rfl rfl (by simp) (by simp) (by simp [hopen]) rfl rfl ⟨?_, ?_⟩ rfl (h.zrwa zid hz)
    · simp only; omega
    · simp only; rw [h.zslba zid hz, h.capacity zid hz]; omega
  · rename_i hne
    refine h.move (d := { z.zoneDescs zid with wp := wp' }) hz ⟨rfl, rfl, rfl, rfl, rfl, rfl, rfl⟩
      rfl rfl ?_ (h.zrwa zid hz)
    have hb : (z.zoneDescs zid).zslba ≤ wp' ∧
        wp' < (z.zoneDescs zid).zslba + (z.zoneDescs zid).zoneCapacity := by
      rw [h.zslba zid hz, h.capacity zid hz] at *
      omega
    revert hopen
    unfold ZoneOk
    cases (z.zoneDescs zid).state <;> simp [ZoneState.isOpen] <;> exact ⟨hb.1, hb.2⟩

/-- An accepted explicit flush. -/
theorem flushZrwaTo_inv (hl : Layout sp zp) (h : Inv sp zp z) (hz : zid < zp.nrZones)
    (hact : (z.zoneDescs zid).state.isActive = true) {slba : Nat}
    (h1 : (z.zoneDescs zid).wp ≤ slba)
    (h2 : slba < (z.zoneDescs zid).zslba + (z.zoneDescs zid).zoneCapacity) :
    Inv sp zp (flushZrwaTo z zid slba) := by
  have hok : (z.zoneDescs zid).zslba ≤ (z.zoneDescs zid).wp := by
    have := h.zone zid hz
    revert hact this
    unfold ZoneOk
    cases (z.zoneDescs zid).state <;> simp [ZoneState.isActive] <;> omega
  have hend := hl.mul_lt hz
  rw [h.zslba zid hz, h.capacity zid hz] at h2
  have hwp : u64 (slba + 1) = slba + 1 := u64_of_lt (by omega)
  unfold flushZrwaTo
  simp only [setDesc_zoneDescs, update_self, hwp]
  rw [h.zoneEnd_eq hl hz]
  split
  · refine h.deactivate (d := { z.zoneDescs zid with state := .full, wp := slba + 1 }) hl hz hact
      ?_ ?_ ?_ ?_ ?_ rfl rfl ⟨?_, ?_⟩ rfl (h.zrwa zid hz)
    · split <;> rfl
    · split <;> rfl
    · split <;> simp
    · split <;> simp
    · revert hact
      cases (z.zoneDescs zid).state <;> simp [ZoneState.isActive, ZoneState.isOpen]
    · simp only; omega
    · simp only; rw [h.zslba zid hz, h.capacity zid hz]; omega
  · refine h.move (d := { z.zoneDescs zid with wp := slba + 1 }) hz ⟨rfl, rfl, rfl, rfl, rfl, rfl, rfl⟩
      rfl rfl ?_ (h.zrwa zid hz)
    have hb : (z.zoneDescs zid).zslba ≤ slba + 1 ∧
        slba + 1 < (z.zoneDescs zid).zslba + (z.zoneDescs zid).zoneCapacity := by
      rw [h.zslba zid hz, h.capacity zid hz] at *
      omega
    revert hact
    unfold ZoneOk
    cases (z.zoneDescs zid).state <;> simp [ZoneState.isActive] <;> exact ⟨hb.1, hb.2⟩

theorem flushExplicit_inv (hl : Layout sp zp) (h : Inv sp zp z) {slba : Nat} (hin : InNs zp slba) :
    Partial (zmgmtSendFlushExplicitZrwa z slba) fun r => Inv sp zp r.2 := by
  have hz := h.lbaToZone_lt hl hin
  have hend := hl.mul_lt hz
  have h8 := hl.zoneLbas_ge hz
  unfold zmgmtSendFlushExplicitZrwa
  simp only []
  split
  · exact .ret h
  split
  · exact .ret h
  rename_i hwin
  refine Partial.bind .ensure fun _ _ => ?_
  split
  · exact .ret h
  rw [h.zoneToSlba_eq hl hz, h.capacity _ hz, u64_of_lt (n := _ * _ + _) (by omega),
    sub64_of_le (a := _ * _ + _) (by omega) (by omega)] at hwin
  have hlast : slba < ((z.zoneDescs (lbaToZone z slba)).zslba +
      (z.zoneDescs (lbaToZone z slba)).zoneCapacity) := by
    rw [h.zslba _ hz, h.capacity _ hz]
    omega
  split <;> rename_i hs
  · exact .ret (flushZrwaTo_inv hl h hz (by rw [hs]; rfl) (by omega) hlast)
  · exact .ret (flushZrwaTo_inv hl h hz (by rw [hs]; rfl) (by omega) hlast)
  · exact .ret (flushZrwaTo_inv hl h hz (by rw [hs]; rfl) (by omega) hlast)
  · exact .ret h

theorem zmgmtSend_inv (hl : Layout sp zp) (h : Inv sp zp z) {junk slba : Nat} (hin : InNs zp slba)
    {action : ZoneSendAction} {option : Bool}
    (hzr : action = .openZone → option = true → ZrwaConfig zp) :
    Partial (zmgmtSend z junk slba action option) fun r => Inv sp zp r.2 := by
  have hz := h.lbaToZone_lt hl hin
  unfold zmgmtSend
  cases action with
  | close => exact .ret (close_inv hl h hz)
  | finish => exact .ret (finish_inv hl h hz)
  | openZone => exact .ret (open_inv hl h hz (hzr rfl))
  | reset => exact .ret (reset_inv hl h hz)
  | offline => exact .ret (offline_inv h hz)
  | flushExplZrwa => exact flushExplicit_inv hl h hin
  | setZoneDescExt => exact .ret h
  | other => exact .ret h

/-! ## Writes -/

/-- What the checks of a write leave: the invariant, and an open zone if the write goes on. -/
structure Checked (sp : SsdParams) (zp : ZnsParams) (z : ZnsFtl τ) (zid : Nat)
    (r : Option Nat × ZnsFtl τ) : Prop where
  inv : Inv sp zp r.2
  opened : r.1 = none → (r.2.zoneDescs zid).state.isOpen = true
  wp : r.1 = none → (r.2.zoneDescs zid).wp = (z.zoneDescs zid).wp

theorem Checked.refuse (h : Inv sp zp z) (status : Nat) : Checked sp zp z zid (some status, z) :=
  ⟨h, by simp, by simp⟩

theorem writeSwitch_checked (hl : Layout sp zp) (h : Inv sp zp z) (hz : zid < zp.nrZones)
    (slba : Nat) : Checked sp zp z zid (writeSwitch z zid slba) := by
  have hok := h.zone zid hz
  unfold writeSwitch
  split <;> rename_i hs
  · split
    · exact .refuse h _
    split
    · exact .refuse h _
    split
    · exact .refuse h _
    simp only [ZoneOk, hs] at hok
    have hd : { z.zoneDescs zid with zrwav := false } = z.zoneDescs zid := by rw [← hok.2]
    obtain ⟨z₁, he, hds, hi⟩ := h.openFromEmpty hl hz hs .openedImpl rfl false
      (by simp) z rfl rfl (by simp [hd]) rfl rfl
    simp only [openImplicitly, he]
    exact ⟨hi, by simp [ZoneState.isOpen], by simp [hds]⟩
  · obtain ⟨z₁, he, hds, hi⟩ := h.openFromClosed hl hz hs .openedImpl rfl
    simp only [openImplicitly, he]
    exact ⟨hi, by simp [ZoneState.isOpen], by simp [hds]⟩
  · exact ⟨h, by simp [hs, ZoneState.isOpen], by simp⟩
  · exact ⟨h, by simp [hs, ZoneState.isOpen], by simp⟩
  · exact .refuse h _
  · exact .refuse h _
  · exact .refuse h _

/-- An open zone's write pointer is inside the zone. -/
theorem Inv.wp_lt (h : Inv sp zp z) (hz : zid < zp.nrZones)
    (hopen : (z.zoneDescs zid).state.isOpen = true) :
    zid * (zp.zoneSize / 512) ≤ (z.zoneDescs zid).wp ∧
      (z.zoneDescs zid).wp < zid * (zp.zoneSize / 512) + zp.zoneSize / 512 := by
  have hok := h.zone zid hz
  rw [← h.zslba zid hz, ← h.capacity zid hz]
  revert hopen hok
  unfold ZoneOk
  cases (z.zoneDescs zid).state <;> simp [ZoneState.isOpen]

/-- A range that starts in zone `zid` and passes the boundary check ends there. -/
theorem Inv.range_in_zone (hl : Layout sp zp) (h : Inv sp zp z) (hz : zid < zp.nrZones)
    {slba nrLba : Nat} (h1 : zid * (zp.zoneSize / 512) ≤ slba)
    (h2 : slba < zid * (zp.zoneSize / 512) + zp.zoneSize / 512) (hn : 0 < nrLba)
    (hn' : nrLba ≤ 2 ^ 16) (hb : checkBoundaryError z slba nrLba = true) :
    u64 (slba + nrLba - 1) = slba + nrLba - 1 ∧
      slba + nrLba ≤ zid * (zp.zoneSize / 512) + zp.zoneSize / 512 := by
  have hend := hl.mul_lt hz
  have hu : u64 (slba + nrLba - 1) = slba + nrLba - 1 := u64_of_lt (by omega)
  have hb' : lbaToZone z slba = lbaToZone z (u64 (slba + nrLba - 1)) := by
    simpa [checkBoundaryError] using hb
  rw [h.lbaToZone_eq hl hz h1 h2, hu] at hb'
  have := h.lt_of_lbaToZone hl hz (by omega) hb'.symm
  exact ⟨hu, by omega⟩

/-- The checks of a plain write: if it goes on, the range from the write pointer fits the zone. -/
theorem writeChecks_checked (hl : Layout sp zp) (h : Inv sp zp z) (hz : zid < zp.nrZones)
    (slba : Nat) {nrLba : Nat} (hn : 0 < nrLba) (hn' : nrLba ≤ 2 ^ 16) :
    Checked sp zp z zid (writeChecks z zid slba nrLba) ∧
      ((writeChecks z zid slba nrLba).1 = none →
        (z.zoneDescs zid).wp + nrLba ≤ zid * (zp.zoneSize / 512) + zp.zoneSize / 512) := by
  unfold writeChecks
  split
  · exact ⟨.refuse h _, by simp⟩
  split
  · exact ⟨.refuse h _, by simp⟩
  split
  · exact ⟨.refuse h _, by simp⟩
  rename_i hb hwp
  have hc := writeSwitch_checked hl h hz slba
  refine ⟨hc, fun hnone => ?_⟩
  have hw := hc.inv.wp_lt hz (hc.opened hnone)
  rw [hc.wp hnone] at hw
  have hslba : slba = (z.zoneDescs zid).wp := by simpa using hwp
  rw [hslba] at hb
  exact (h.range_in_zone hl hz hw.1 hw.2 hn hn' (by simpa using hb)).2

theorem znsWritePlain_inv (B : PerfModel τ) (hl : Layout sp zp) (h : Inv sp zp z) (req : RwRequest)
    (hin : InNs zp req.cmd.slba) : Partial (znsWritePlain B z req) fun o => Inv sp zp o.ftl := by
  have hz := h.lbaToZone_lt hl hin
  have hn := nrLbas_pos req.cmd
  have hn' := nrLbas_le req.cmd
  unfold znsWritePlain
  simp only []
  refine Partial.bind (Q := fun _ => True) (fun _ _ => trivial) fun r _ => ?_
  obtain ⟨got, buf⟩ := r
  have h₁ := h.setBuffer buf (zoneBufferRef z (lbaToZone z req.cmd.slba))
  simp only []
  split
  · exact .ret h₁
  generalize (if req.cmd.opcode = .zoneAppend then (z.zoneDescs (lbaToZone z req.cmd.slba)).wp
    else req.cmd.slba) = slba
  obtain ⟨hck, hfit⟩ := writeChecks_checked hl h₁ hz slba hn hn'
  split <;> rename_i heq
  · rw [heq] at hck
    exact .ret hck.inv
  · rw [heq] at hck hfit
    have hw := hck.wp rfl
    refine .ret (Inv.setPerf ?_ _)
    refine increaseWritePtr_inv hl hck.inv hz (hck.opened rfl) ?_
    rw [hw, hck.inv.zslba _ hz, hck.inv.capacity _ hz, u32_of_lt (by omega)]
    exact hfit rfl

theorem zrwaChecks_checked (hl : Layout sp zp) (h : Inv sp zp z) (hz : zid < zp.nrZones)
    (hzr : (z.zoneDescs zid).zrwav = true) {slba nrLba : Nat} :
    Partial (zrwaChecks z zid slba nrLba) fun r => Checked sp zp z zid r ∧
      (r.1 = none → checkBoundaryError z slba nrLba = true ∧ (z.zoneDescs zid).wp ≤ slba) := by
  have hok := h.zone zid hz
  unfold zrwaChecks
  simp only []
  split
  · exact .ret ⟨.refuse h _, by simp⟩
  split
  · exact .ret ⟨.refuse h _, by simp⟩
  split
  · exact .ret ⟨.refuse h _, by simp⟩
  rename_i hb hwin
  have hgo : checkBoundaryError z slba nrLba = true ∧ (z.zoneDescs zid).wp ≤ slba :=
    ⟨by simpa using hb, by omega⟩
  split <;> rename_i hs
  · obtain ⟨z₁, he, hds, hi⟩ := h.openFromClosed hl hz hs .openedImpl rfl
    simp only [openZrwa, he]
    refine Partial.bind zrwaBufferAllocate_eq fun r hr => ?_
    obtain ⟨buf, -, hr⟩ := hr
    refine Partial.bind .ensure fun _ _ => .ret ⟨⟨?_, ?_, ?_⟩, fun _ => hgo⟩
    · exact hi.same (by simp [hr]) (by simp [hr]) (by simp [hr]) (by simp [hr])
    · simp [ZoneState.isOpen]
    · simp [hr, hds]
  · simp [ZoneOk, hs, hzr] at hok
  · exact .ret ⟨⟨h, by simp [hs, ZoneState.isOpen], by simp⟩, fun _ => hgo⟩
  · exact .ret ⟨⟨h, by simp [hs, ZoneState.isOpen], by simp⟩, fun _ => hgo⟩
  · exact .ret ⟨.refuse h _, by simp⟩
  · exact .ret ⟨.refuse h _, by simp⟩
  · exact .ret ⟨.refuse h _, by simp⟩

/-- An implicit flush moves the write pointer at most to the end of the zone. -/
theorem nrLbasFlush_le (hl : Layout sp zp) (h : Inv sp zp z) (hz : zid < zp.nrZones)
    (hcfg : ZrwaConfig zp) {prevWp elba : Nat} (h1 : prevWp ≤ elba)
    (h2 : elba < zid * (zp.zoneSize / 512) + zp.zoneSize / 512) :
    Partial (nrLbasFlush z zid prevWp elba) fun n =>
      prevWp + u32 n ≤ zid * (zp.zoneSize / 512) + zp.zoneSize / 512 := by
  have hend := hl.mul_lt hz
  unfold nrLbasFlush
  simp only [h.zp_eq]
  split
  · rename_i hge
    refine Partial.bind .ensure fun _ hfg => .ret ?_
    have hzr := hl.zrwaLt
    have hst : u64 (prevWp + zp.lbasPerZrwa) = prevWp + zp.lbasPerZrwa := u64_of_lt (by omega)
    rw [hst] at hge ⊢
    have hup := divRoundUp_mul_lt (n := elba - (prevWp + zp.lbasPerZrwa) + 1)
      (Nat.pos_of_ne_zero hfg)
    have hle : zp.lbasPerZrwafg ≤ zp.lbasPerZrwa := hcfg
    generalize divRoundUp (elba - (prevWp + zp.lbasPerZrwa) + 1) zp.lbasPerZrwafg *
      zp.lbasPerZrwafg = n at hup ⊢
    have : u32 (u64 n) ≤ n := (Nat.mod_le _ _).trans (Nat.mod_le _ _)
    omega
  split
  · rename_i hlast
    rw [h.zoneToElba_eq hl hz] at hlast
    refine .ret ?_
    rw [sub64_of_le h1 (by omega), u64_of_lt (by omega), u32_of_lt (by omega)]
    omega
  · refine .ret ?_
    simp [u32]; omega

theorem flushImplicit_inv (hl : Layout sp zp) (h : Inv sp zp z) (hz : zid < zp.nrZones)
    (hopen : (z.zoneDescs zid).state.isOpen = true) {flush : Nat}
    (hf : (z.zoneDescs zid).wp + u32 flush ≤ zid * (zp.zoneSize / 512) + zp.zoneSize / 512) :
    Partial (flushImplicit z zid flush) fun r => Inv sp zp r.2 := by
  unfold flushImplicit
  split
  · refine Partial.bind zrwaBufferAllocate_eq fun r hr => .ret ?_
    obtain ⟨buf, -, hr⟩ := hr
    have h₁ := h.setBuffer buf (.zrwaBuffer zid)
    rw [hr]
    split
    · exact h₁
    · refine increaseWritePtr_inv hl h₁ hz (by simpa using hopen) ?_
      rw [h₁.zslba _ hz, h₁.capacity _ hz, setBuffer_zoneDescs]
      exact hf
  · exact .ret h

theorem znsWriteZrwa_inv (B : PerfModel τ) (hl : Layout sp zp) (h : Inv sp zp z) (req : RwRequest)
    (hin : InNs zp req.cmd.slba) (hzr : (z.zoneDescs (lbaToZone z req.cmd.slba)).zrwav = true) :
    Partial (znsWriteZrwa B z req) fun o => Inv sp zp o.ftl := by
  have hz := h.lbaToZone_lt hl hin
  have hn := nrLbas_pos req.cmd
  have hn' := nrLbas_le req.cmd
  have hcfg := h.zrwa _ hz hzr
  have hzone := h.lt_of_lbaToZone hl hz (hin.lt hl |>.trans (by decide)) rfl
  unfold znsWriteZrwa
  simp only []
  refine Partial.bind (zrwaChecks_checked hl h hz hzr) fun r hr => ?_
  obtain ⟨hck, hgo⟩ := hr
  split
  · exact .ret hck.inv
  rename_i z₁
  obtain ⟨hb, hle⟩ := hgo rfl
  obtain ⟨hu, hend⟩ := h.range_in_zone hl hz hzone.1 hzone.2 hn hn' hb
  have hopen := hck.opened rfl
  have hwp := hck.wp rfl
  refine Partial.bind (nrLbasFlush_le hl hck.inv hz hcfg (by omega) (by omega)) fun flush hflush => ?_
  refine Partial.bind (flushImplicit_inv hl hck.inv hz hopen (by rw [hwp]; exact hflush))
    fun r hr => ?_
  obtain ⟨refused, z₂⟩ := r
  simp only []
  split
  · exact .ret hr
  · exact .ret (Inv.setPerf hr _)

theorem znsWrite_inv (B : PerfModel τ) (hl : Layout sp zp) (h : Inv sp zp z) (req : RwRequest)
    (hin : InNs zp req.cmd.slba) : Partial (znsWrite B z req) fun o => Inv sp zp o.ftl := by
  unfold znsWrite
  rw [h.lpnToZone_eq hl]
  split
  · exact znsWritePlain_inv B hl h req hin
  · rename_i hzr
    exact znsWriteZrwa_inv B hl h req hin (by simpa using hzr)

/-! ## Commands and runs -/

/-- The command addresses an existing zone, and opens one with a random write area only where
`ZrwaConfig` holds. -/
def Addresses (zp : ZnsParams) : ZnsRequest → Prop
  | .rw req => InNs zp req.cmd.slba
  | .zoneMgmtSend cmd _ _ =>
    (cmd.selectAll = false → InNs zp cmd.slba) ∧
      (cmd.zsa = .openZone → cmd.zsaso = true → ZrwaConfig zp)

theorem znsZmgmtSend_inv (hl : Layout sp zp) (h : Inv sp zp z) {junk : Nat} {cmd : ZoneMgmtSend}
    {nsecsStart : Nat} (hin : cmd.selectAll = false → InNs zp cmd.slba)
    (hzr : cmd.zsa = .openZone → cmd.zsaso = true → ZrwaConfig zp) :
    Partial (znsZmgmtSend z junk cmd nsecsStart) fun r => Inv sp zp r.2 := by
  unfold znsZmgmtSend
  split
  · refine Partial.bind (Q := Inv sp zp) ?_ fun z' h' => .ret h'
    refine Partial.foldlM h fun z' h' zid hzid => ?_
    have hz : zid < zp.nrZones := by simpa [h.zp_eq] using hzid
    have h8 := hl.zoneLbas_ge hz
    have hlt : zid * (zp.zoneSize / 512) < zp.nrZones * (zp.zoneSize / 512) :=
      Nat.mul_lt_mul_of_pos_right hz (by omega)
    refine Partial.bind (zmgmtSend_inv hl h' ?_ hzr) fun r hr => .ret hr
    rw [h'.zoneToSlba_eq hl hz]
    exact hlt
  · rename_i hsel
    exact Partial.bind (zmgmtSend_inv hl h (hin (by simpa using hsel)) hzr) fun r hr => .ret hr

/-- One command keeps the invariant. -/
theorem znsProcNvmeIoCmd_inv (B : PerfModel τ) (hl : Layout sp zp) (h : Inv sp zp z)
    {req : ZnsRequest} (ha : Addresses zp req) :
    Partial (znsProcNvmeIoCmd B z req) (Inv sp zp) := by
  cases req with
  | rw req =>
    unfold znsProcNvmeIoCmd
    simp only []
    split
    · exact Partial.bind (znsWrite_inv B hl h req ha) fun o ho => .ret ho
    · exact Partial.bind (znsWrite_inv B hl h req ha) fun o ho => .ret ho
    · exact .ret (Inv.setPerf h _)
    · exact .ret (Inv.setPerf h _)
    · exact .ret h
  | zoneMgmtSend cmd nsecsStart junk =>
    exact Partial.bind (znsZmgmtSend_inv hl h ha.1 ha.2) fun r hr => .ret hr

/-- `ssd_init_params` and `zns_init_params` build a layout. -/
theorem layout_of_init {scfg : SsdConfig} {cfg : ZnsConfig} {capacity : Nat}
    (hsp : ssdInitParams scfg capacity 1 = .ok sp) (hzp : znsInitParams cfg sp capacity = .ok zp)
    (hcap : capacity / 512 < 2 ^ 32) : Layout sp zp := by
  have hs := ssdInitParams_sectors hsp
  unfold znsInitParams at hzp
  simp only [Outcome.bind_ok] at hzp
  obtain ⟨_, hne, _, _, _, hal, hzp⟩ := hzp
  have hne' := Outcome.ensure_ok.mp hne
  have hal' := Outcome.ensure_ok.mp hal
  rw [hs.pgsz] at hal'
  cases hzp
  refine ⟨hs, hal', fun _ => Nat.pos_of_ne_zero hne', ?_, u32_lt _, u32_lt _⟩
  calc u32 (capacity / cfg.zoneSize) * (u32 cfg.zoneSize / 512)
        ≤ capacity / cfg.zoneSize * (cfg.zoneSize / 512) :=
          Nat.mul_le_mul (Nat.mod_le _ _) (Nat.div_le_div_right (Nat.mod_le _ _))
      _ ≤ capacity / 512 := by
          rw [Nat.le_div_iff_mul_le (by decide), Nat.mul_assoc]
          exact (Nat.mul_le_mul_left _ (Nat.div_mul_le_self _ _)).trans (Nat.div_mul_le_self _ _)
      _ < 2 ^ 32 := hcap

theorem znsInitFtl_inv (hl : Layout sp zp) (perf : τ) (storage : Nat → UInt8) :
    Inv sp zp (znsInitFtl sp zp perf storage) := by
  have hlba : byteToLba zp.zoneSize = zp.zoneSize / 512 := Nat.shiftRight_eq_div_pow _ _
  have hslba (i : Nat) (hi : i < zp.nrZones) :
      (initDescriptor zp i).zslba = i * (zp.zoneSize / 512) := by
    have := hl.mul_lt hi
    simp only [initDescriptor, hlba]
    exact u64_of_lt (by omega)
  refine ⟨rfl, rfl, hslba, fun i _ => hlba, rfl, rfl, ?_, ?_, fun i _ => ⟨rfl, rfl⟩, ?_⟩
  · exact (tally_eq_zero.mpr fun i _ => rfl).symm
  · exact (tally_eq_zero.mpr fun i _ => rfl).symm
  · intro i _ h
    cases h

end Zns

/-- Every state that commands and completions, in any order, reach: the resource counters are the
numbers of active and of open zones, and every zone is as `Zns.ZoneOk` says. A run in which a command
stops the kernel reaches no state; its prefixes do. -/
theorem zone_state_machine {τ : Type} (B : PerfModel τ) {scfg : SsdConfig} {cfg : ZnsConfig}
    {sp : SsdParams} {zp : ZnsParams} {capacity : Nat}
    (hsp : ssdInitParams scfg capacity 1 = .ok sp) (hzp : znsInitParams cfg sp capacity = .ok zp)
    (hcap : capacity / lbaSize < 2 ^ 32) (perf : τ) (storage : Nat → UInt8)
    (events : List ZnsEvent)
    (hon : ∀ req, ZnsEvent.command req ∈ events → Zns.Addresses zp req) :
    Partial (events.foldlM (ZnsDevice.step B) { ftl := znsInitFtl sp zp perf storage }) fun s =>
      (s.ftl.resInfos .activeZone).acquiredCnt =
        tally (Finset.range zp.nrZones) (fun i => (s.ftl.zoneDescs i).state.isActive) ∧
      (s.ftl.resInfos .openZone).acquiredCnt =
        tally (Finset.range zp.nrZones) (fun i => (s.ftl.zoneDescs i).state.isOpen) ∧
      (s.ftl.resInfos .activeZone).acquiredCnt ≤ zp.nrZones ∧
      (s.ftl.resInfos .openZone).acquiredCnt ≤ zp.nrZones ∧
      ∀ i < zp.nrZones, Zns.ZoneOk (s.ftl.zoneDescs i) := by
  have hl := Zns.layout_of_init hsp hzp hcap
  have hinit : Zns.Inv sp zp (znsInitFtl sp zp perf storage) := Zns.znsInitFtl_inv hl perf storage
  have hrun : Partial (events.foldlM (ZnsDevice.step B) { ftl := znsInitFtl sp zp perf storage })
      fun s => Zns.Inv sp zp s.ftl :=
    Partial.foldlM hinit fun s h event hmem =>
      ZnsDevice.step_partial h
        (fun req he => Zns.znsProcNvmeIoCmd_inv B hl h (hon req (he ▸ hmem)))
        fun op => h.setBuffer _ _
  exact hrun.mono fun s h => ⟨h.active, h.opened, h.active_le, h.opened_le, h.zone⟩

/-- `zone_state_machine` on a `ZNS_PROTOTYPE` of four zones: a write opens zone 0, an append
follows it, an operation of the write is completed, zone 1 is opened and all zones are finished. -/
theorem zone_state_machine_znsPrototype :
    Total
      ([.command (.rw { cmd := { opcode := .write, slba := 0, length := 255 } }),
        .command (.rw { cmd := { opcode := .zoneAppend, slba := 0, length := 255 } }), .complete 0,
        .command (.zoneMgmtSend { slba := 65536, zsa := .openZone } 0 0), .complete 0,
        .command (.zoneMgmtSend { slba := 0, zsa := .finish, selectAll := true } 0 0)].foldlM
        (ZnsDevice.step .instant) { ftl := znsInitFtl .znsPrototype .znsPrototype () fun _ => 0 }) fun s =>
      (s.ftl.resInfos .openZone).acquiredCnt =
        tally (Finset.range 4) fun i => (s.ftl.zoneDescs i).state.isOpen := by
  have h := zone_state_machine .instant ssdInitParams_znsPrototype znsInitParams_znsPrototype
    (by decide) () (fun _ => 0) [.command (.rw { cmd := { opcode := .write, slba := 0, length := 255 } }),
      .command (.rw { cmd := { opcode := .zoneAppend, slba := 0, length := 255 } }), .complete 0,
      .command (.zoneMgmtSend { slba := 65536, zsa := .openZone } 0 0), .complete 0,
      .command (.zoneMgmtSend { slba := 0, zsa := .finish, selectAll := true } 0 0)]
    (by simp [Zns.Addresses, Zns.InNs, ZnsParams.znsPrototype])
  exact (h.total (by decide +kernel)).mono fun s hs => hs.2.1

end Nvmev
