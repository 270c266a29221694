import NvmeVirt.Lib.Tally
import NvmeVirt.Zns.ReadWrite

/-!
# The zone state machine

`Zns.Inv`: the two resource counters are the numbers of active and of open zones, and the write
pointer of a zone is where its state says. Every handler moves at most one zone at a time
(`Zns.Move`); `Inv.move` is the one place where the counters are compared with the zones. A
`select_all` command is a sequence of such moves, and so is a write that opens the zone and
fills it.
-/

namespace Nvmev

open CInt Function Tally

/-- The zone holds an active resource. -/
def ZoneState.isActive : ZoneState → Bool
  | .openedImpl | .openedExpl | .closed => true
  | _ => false

/-- The zone holds an open resource. -/
def ZoneState.isOpen : ZoneState → Bool
  | .openedImpl | .openedExpl => true
  | _ => false

namespace Zns

variable {τ : Type}

/-- Where the write pointer of a zone is in each of its states. -/
def ZoneOk (d : ZoneDescriptor) : Prop :=
  match d.state with
  | .empty => d.wp = d.zslba ∧ d.zrwav = false
  | .openedImpl | .openedExpl | .closed => d.zslba ≤ d.wp ∧ d.wp < d.zslba + d.zoneCapacity
  | .full => d.zslba ≤ d.wp ∧ d.wp ≤ d.zslba + d.zoneCapacity
  | .readOnly | .offline => False

/-- The flush granularity is at most the random write area. Where it is 0, a flush stops the
kernel with a division by zero. -/
def ZrwaConfig (zp : ZnsParams) : Prop := zp.lbasPerZrwafg ≤ zp.lbasPerZrwa

/-- A namespace of fewer than 2^32 logical blocks, as `ssd_init_params` and `zns_init_params`
build it. -/
structure Layout (sp : SsdParams) (zp : ZnsParams) : Prop where
  sectors : sp.Sectors
  aligned : zp.zoneSize % 4096 = 0
  nonempty : 0 < zp.nrZones → 0 < zp.zoneSize
  small : zp.nrZones * (zp.zoneSize / 512) < 2 ^ 32
  count : zp.nrZones < 2 ^ 32
  zrwaLt : zp.lbasPerZrwa < 2 ^ 32

/-- The invariant of the zone state machine. -/
structure Inv (sp : SsdParams) (zp : ZnsParams) (z : ZnsFtl τ) : Prop where
  sp_eq : z.ssd.sp = sp
  zp_eq : z.zp = zp
  zslba : ∀ i < zp.nrZones, (z.zoneDescs i).zslba = i * (zp.zoneSize / 512)
  capacity : ∀ i < zp.nrZones, (z.zoneDescs i).zoneCapacity = zp.zoneSize / 512
  activeTotal : (z.resInfos .activeZone).totalCnt = zp.nrZones
  openTotal : (z.resInfos .openZone).totalCnt = zp.nrZones
  active : (z.resInfos .activeZone).acquiredCnt =
    tally (Finset.range zp.nrZones) fun i => (z.zoneDescs i).state.isActive
  opened : (z.resInfos .openZone).acquiredCnt =
    tally (Finset.range zp.nrZones) fun i => (z.zoneDescs i).state.isOpen
  zone : ∀ i < zp.nrZones, ZoneOk (z.zoneDescs i)
  zrwa : ∀ i < zp.nrZones, (z.zoneDescs i).zrwav = true → ZrwaConfig zp

/-- `z'` is `z` with the descriptor `d` for zone `zid`, and with resource counters that follow
the zone. -/
structure Move (z z' : ZnsFtl τ) (zid : Nat) (d : ZoneDescriptor) : Prop where
  sp_eq : z'.ssd.sp = z.ssd.sp
  zp_eq : z'.zp = z.zp
  descs : z'.zoneDescs = update z.zoneDescs zid d
  activeTotal : (z'.resInfos .activeZone).totalCnt = (z.resInfos .activeZone).totalCnt
  openTotal : (z'.resInfos .openZone).totalCnt = (z.resInfos .openZone).totalCnt
  active : (z'.resInfos .activeZone).acquiredCnt + (z.zoneDescs zid).state.isActive.toNat =
    (z.resInfos .activeZone).acquiredCnt + d.state.isActive.toNat
  opened : (z'.resInfos .openZone).acquiredCnt + (z.zoneDescs zid).state.isOpen.toNat =
    (z.resInfos .openZone).acquiredCnt + d.state.isOpen.toNat

variable {sp : SsdParams} {zp : ZnsParams} {z z' : ZnsFtl τ} {zid : Nat} {d : ZoneDescriptor}

theorem Inv.move (h : Inv sp zp z) (hz : zid < zp.nrZones) (m : Move z z' zid d)
    (hs : d.zslba = (z.zoneDescs zid).zslba) (hc : d.zoneCapacity = (z.zoneDescs zid).zoneCapacity)
    (hd : ZoneOk d) (hzr : d.zrwav = true → ZrwaConfig zp) : Inv sp zp z' := by
  have hmem : zid ∈ Finset.range zp.nrZones := Finset.mem_range.mpr hz
  have hat (P : ZoneDescriptor → Prop) (hP : ∀ i < zp.nrZones, P (z.zoneDescs i)) (hPd : P d) :
      ∀ i < zp.nrZones, P (z'.zoneDescs i) := by
    intro i hi
    rw [m.descs]
    by_cases hiz : i = zid
    · subst hiz; rwa [update_self]
    · rw [update_of_ne hiz]; exact hP i hi
  have hta := tally_update (Finset.range zp.nrZones) z.zoneDescs (fun d => d.state.isActive) hmem d
  have hto := tally_update (Finset.range zp.nrZones) z.zoneDescs (fun d => d.state.isOpen) hmem d
  have ha := m.active
  have ho := m.opened
  rw [h.active] at ha
  rw [h.opened] at ho
  refine ⟨m.sp_eq.trans h.sp_eq, m.zp_eq.trans h.zp_eq, ?_, ?_, m.activeTotal.trans h.activeTotal,
    m.openTotal.trans h.openTotal, ?_, ?_, hat ZoneOk h.zone hd,
    hat (fun d => d.zrwav = true → ZrwaConfig zp) h.zrwa hzr⟩
  · intro i hi
    rw [m.descs]
    by_cases hiz : i = zid
    · subst hiz; rw [update_self, hs, h.zslba i hi]
    · rw [update_of_ne hiz, h.zslba i hi]
  · exact hat (fun d => d.zoneCapacity = zp.zoneSize / 512) h.capacity (hc.trans (h.capacity zid hz))
  · rw [m.descs]; omega
  · rw [m.descs]; omega

/-- A state with the same zones and the same counters. -/
theorem Inv.same (h : Inv sp zp z) (hsp : z'.ssd.sp = z.ssd.sp) (hzp : z'.zp = z.zp)
    (hd : z'.zoneDescs = z.zoneDescs) (hr : z'.resInfos = z.resInfos) : Inv sp zp z' where
  sp_eq := hsp.trans h.sp_eq
  zp_eq := hzp.trans h.zp_eq
  zslba := by rw [hd]; exact h.zslba
  capacity := by rw [hd]; exact h.capacity
  activeTotal := by rw [hr]; exact h.activeTotal
  openTotal := by rw [hr]; exact h.openTotal
  active := by rw [hd, hr]; exact h.active
  opened := by rw [hd, hr]; exact h.opened
  zone := by rw [hd]; exact h.zone
  zrwa := by rw [hd]; exact h.zrwa

/-! ## Resources -/

theorem Inv.active_le (h : Inv sp zp z) : (z.resInfos .activeZone).acquiredCnt ≤ zp.nrZones := by
  rw [h.active]; exact (tally_le _ _).trans_eq (Finset.card_range _)

theorem Inv.opened_le (h : Inv sp zp z) : (z.resInfos .openZone).acquiredCnt ≤ zp.nrZones := by
  rw [h.opened]; exact (tally_le _ _).trans_eq (Finset.card_range _)

theorem Inv.active_lt (h : Inv sp zp z) (hz : zid < zp.nrZones)
    (hs : (z.zoneDescs zid).state.isActive = false) :
    (z.resInfos .activeZone).acquiredCnt < zp.nrZones := by
  rw [h.active]
  exact (tally_lt (p := fun i => (z.zoneDescs i).state.isActive) (Finset.mem_range.mpr hz) hs).trans_eq
    (Finset.card_range _)

theorem Inv.opened_lt (h : Inv sp zp z) (hz : zid < zp.nrZones)
    (hs : (z.zoneDescs zid).state.isOpen = false) :
    (z.resInfos .openZone).acquiredCnt < zp.nrZones := by
  rw [h.opened]
  exact (tally_lt (p := fun i => (z.zoneDescs i).state.isOpen) (Finset.mem_range.mpr hz) hs).trans_eq
    (Finset.card_range _)

theorem Inv.active_pos (h : Inv sp zp z) (hz : zid < zp.nrZones)
    (hs : (z.zoneDescs zid).state.isActive = true) : 0 < (z.resInfos .activeZone).acquiredCnt := by
  rw [h.active]
  exact tally_pos (p := fun i => (z.zoneDescs i).state.isActive) (Finset.mem_range.mpr hz) hs

theorem Inv.opened_pos (h : Inv sp zp z) (hz : zid < zp.nrZones)
    (hs : (z.zoneDescs zid).state.isOpen = true) : 0 < (z.resInfos .openZone).acquiredCnt := by
  rw [h.opened]
  exact tally_pos (p := fun i => (z.zoneDescs i).state.isOpen) (Finset.mem_range.mpr hz) hs

/-- A unit that is there is taken. -/
theorem acquire_of_lt {n : Nat} {type : ZoneResource} (hlt : (z.resInfos type).acquiredCnt < n)
    (ht : (z.resInfos type).totalCnt = n) (hn : n < 2 ^ 32) :
    acquireZoneResource z type = (true, z.setAcquired type ((z.resInfos type).acquiredCnt + 1)) := by
  unfold acquireZoneResource isZoneResourceAvail
  rw [ht, decide_eq_true hlt, if_pos rfl, u32_of_lt (by omega)]

theorem not_full_of_lt {n : Nat} {type : ZoneResource} (hlt : (z.resInfos type).acquiredCnt < n)
    (ht : (z.resInfos type).totalCnt = n) : isZoneResourceFull z type = false := by
  unfold isZoneResourceFull
  rw [ht]
  exact beq_false_of_ne (by omega)

/-- A release of a unit that is held does not wrap. -/
theorem u32_release {n : Nat} (h0 : 0 < n) (h1 : n < 2 ^ 32) : u32 (n + 4294967295) = n - 1 := by
  unfold u32; omega

section Fields

variable (z) (type : ZoneResource) (cnt zid : Nat) (d : ZoneDescriptor) (state : ZoneState)

@[simp] theorem setAcquired_ssd : (z.setAcquired type cnt).ssd = z.ssd := rfl
@[simp] theorem setAcquired_zp : (z.setAcquired type cnt).zp = z.zp := rfl
@[simp] theorem setAcquired_zoneDescs : (z.setAcquired type cnt).zoneDescs = z.zoneDescs := rfl
@[simp] theorem setAcquired_resInfos : (z.setAcquired type cnt).resInfos =
    update z.resInfos type { z.resInfos type with acquiredCnt := cnt } := rfl

@[simp] theorem release_ssd : (releaseZoneResource z type).ssd = z.ssd := rfl
@[simp] theorem release_zp : (releaseZoneResource z type).zp = z.zp := rfl
@[simp] theorem release_zoneDescs : (releaseZoneResource z type).zoneDescs = z.zoneDescs := rfl
@[simp] theorem release_resInfos : (releaseZoneResource z type).resInfos = update z.resInfos type
    { z.resInfos type with acquiredCnt := u32 ((z.resInfos type).acquiredCnt + (2 ^ 32 - 1)) } := rfl

@[simp] theorem acquire_ssd : (acquireZoneResource z type).2.ssd = z.ssd := by
  unfold acquireZoneResource; split <;> rfl
@[simp] theorem acquire_zp : (acquireZoneResource z type).2.zp = z.zp := by
  unfold acquireZoneResource; split <;> rfl
@[simp] theorem acquire_zoneDescs : (acquireZoneResource z type).2.zoneDescs = z.zoneDescs := by
  unfold acquireZoneResource; split <;> rfl
theorem acquire_resInfos_of_ne {t : ZoneResource} (ht : t ≠ type) :
    (acquireZoneResource z type).2.resInfos t = z.resInfos t := by
  unfold acquireZoneResource; split <;> simp [ht]

@[simp] theorem setDesc_ssd : (z.setDesc zid d).ssd = z.ssd := rfl
@[simp] theorem setDesc_zp : (z.setDesc zid d).zp = z.zp := rfl
@[simp] theorem setDesc_zoneDescs : (z.setDesc zid d).zoneDescs = update z.zoneDescs zid d := rfl
@[simp] theorem setDesc_resInfos : (z.setDesc zid d).resInfos = z.resInfos := rfl

@[simp] theorem changeZoneState_ssd : (changeZoneState z zid state).ssd = z.ssd := rfl
@[simp] theorem changeZoneState_zp : (changeZoneState z zid state).zp = z.zp := rfl
@[simp] theorem changeZoneState_resInfos :
    (changeZoneState z zid state).resInfos = z.resInfos := rfl
@[simp] theorem changeZoneState_zoneDescs : (changeZoneState z zid state).zoneDescs =
    update z.zoneDescs zid { z.zoneDescs zid with state } := rfl

@[simp] theorem releaseActive_ssd : (releaseActive z zid).ssd = z.ssd := by
  unfold releaseActive; simp only []; split <;> rfl
@[simp] theorem releaseActive_zp : (releaseActive z zid).zp = z.zp := by
  unfold releaseActive; simp only []; split <;> rfl
@[simp] theorem releaseActive_zoneDescs : (releaseActive z zid).zoneDescs = z.zoneDescs := by
  unfold releaseActive; simp only []; split <;> rfl
@[simp] theorem releaseActive_active : (releaseActive z zid).resInfos .activeZone =
    (releaseZoneResource z .activeZone).resInfos .activeZone := by
  unfold releaseActive; simp only []; split <;> simp
@[simp] theorem releaseActive_open :
    (releaseActive z zid).resInfos .openZone = z.resInfos .openZone := by
  unfold releaseActive; simp only []; split <;> simp
@[simp] theorem releaseActive_zrwa : (releaseActive z zid).resInfos .zrwaZone =
    if (z.zoneDescs zid).zrwav then (releaseZoneResource z .zrwaZone).resInfos .zrwaZone
    else z.resInfos .zrwaZone := by
  unfold releaseActive; simp only []; split <;> simp

end Fields

/-! ## Zone management -/

theorem close_inv (hl : Layout sp zp) (h : Inv sp zp z) (hz : zid < zp.nrZones) :
    Inv sp zp (zmgmtSendCloseZone z zid).2 := by
  have hn := hl.count
  have hle := h.opened_le
  have hok := h.zone zid hz
  unfold zmgmtSendCloseZone
  split <;> rename_i hs <;> simp only [ZoneOk, hs] at hok <;> try exact h
  all_goals
    have hp := h.opened_pos hz (by rw [hs]; rfl)
    refine h.move (d := { z.zoneDescs zid with state := .closed }) hz ⟨rfl, rfl, rfl, ?_, ?_, ?_, ?_⟩
      rfl rfl hok (h.zrwa zid hz)
    all_goals simp [hs, ZoneState.isActive, ZoneState.isOpen, u32_release hp (by omega)]
    omega

/-- An active zone that gives its resources back and gets the descriptor `d`, which is not
active. `z'` has the counters of `releaseActive`, with the open one released if the zone was
open. -/
theorem Inv.deactivate (hl : Layout sp zp) (h : Inv sp zp z) (hz : zid < zp.nrZones)
    (hact : (z.zoneDescs zid).state.isActive = true) (hsp : z'.ssd.sp = z.ssd.sp)
    (hzp : z'.zp = z.zp) (hds : z'.zoneDescs = update z.zoneDescs zid d)
    (ha : z'.resInfos .activeZone = (releaseZoneResource z .activeZone).resInfos .activeZone)
    (ho : z'.resInfos .openZone =
      if (z.zoneDescs zid).state.isOpen then (releaseZoneResource z .openZone).resInfos .openZone
      else z.resInfos .openZone)
    (hs : d.zslba = (z.zoneDescs zid).zslba) (hc : d.zoneCapacity = (z.zoneDescs zid).zoneCapacity)
    (hd : ZoneOk d) (hd' : d.state.isActive = false) (hzr : d.zrwav = true → ZrwaConfig zp) :
    Inv sp zp z' := by
  have hn := hl.count
  have hpa := h.active_pos hz hact
  have hla := h.active_le
  have hlo := h.opened_le
  have hdo : d.state.isOpen = false := by
    revert hd'; cases d.state <;> simp [ZoneState.isActive, ZoneState.isOpen]
  refine h.move hz ⟨hsp, hzp, hds, ?_, ?_, ?_, ?_⟩ hs hc hd hzr
  · rw [ha]; simp
  · rw [ho]; split <;> simp
  · rw [ha, hact, hd']
    simp [u32_release hpa (by omega)]
    omega
  · rw [ho, hdo]
    split
    · rename_i hop
      have hpo := h.opened_pos hz hop
      simp [hop, u32_release hpo (by omega)]
      omega
    · rename_i hop; simp [hop]

theorem finish_inv (hl : Layout sp zp) (h : Inv sp zp z) (hz : zid < zp.nrZones) :
    Inv sp zp (zmgmtSendFinishZone z zid).2 := by
  have hok := h.zone zid hz
  unfold zmgmtSendFinishZone
  split <;> rename_i hs <;> simp only [ZoneOk, hs] at hok
  case h_1 | h_2 | h_3 =>
    exact h.deactivate (d := { z.zoneDescs zid with state := .full }) hl hz (by rw [hs]; rfl)
      (by simp) (by simp) (by simp) (by simp) (by simp [hs, ZoneState.isOpen]) rfl rfl
      ⟨hok.1, hok.2.le⟩ rfl (h.zrwa zid hz)
  case h_4 =>
    refine h.move (d := { z.zoneDescs zid with state := .full }) hz ⟨rfl, rfl, rfl, rfl, rfl, ?_, ?_⟩
      rfl rfl ⟨hok.1.ge, by simp [hok.1]⟩ (h.zrwa zid hz)
    all_goals simp [hs, ZoneState.isActive, ZoneState.isOpen]
  all_goals exact h

/-- A closed zone gets an open resource and one of the two open states. -/
theorem Inv.openFromClosed (hl : Layout sp zp) (h : Inv sp zp z) (hz : zid < zp.nrZones)
    (hs : (z.zoneDescs zid).state = .closed) (st : ZoneState) (hst : st.isOpen = true) :
    ∃ z₁, acquireZoneResource z .openZone = (true, z₁) ∧ z₁.zoneDescs = z.zoneDescs ∧
      Inv sp zp (changeZoneState z₁ zid st) := by
  have hok := h.zone zid hz
  have hlt := h.opened_lt hz (by rw [hs]; rfl)
  simp only [ZoneOk, hs] at hok
  refine ⟨_, acquire_of_lt hlt h.openTotal hl.count, rfl, ?_⟩
  refine h.move (d := { z.zoneDescs zid with state := st }) hz ⟨rfl, rfl, rfl, ?_, ?_, ?_, ?_⟩
    rfl rfl ?_ (h.zrwa zid hz)
  all_goals cases st <;> simp_all [ZoneState.isActive, ZoneState.isOpen, ZoneOk]

/-- An empty zone, which may have been marked as a ZRWA zone, gets an active and an open resource
and one of the two open states. -/
theorem Inv.openFromEmpty (hl : Layout sp zp) (h : Inv sp zp z) (hz : zid < zp.nrZones)
    (hs : (z.zoneDescs zid).state = .empty) (st : ZoneState) (hst : st.isOpen = true) (zrwa : Bool)
    (hzr : zrwa = true → ZrwaConfig zp) (z' : ZnsFtl τ) (hsp : z'.ssd = z.ssd) (hzp : z'.zp = z.zp)
    (hds : z'.zoneDescs = update z.zoneDescs zid { z.zoneDescs zid with zrwav := zrwa })
    (ha : z'.resInfos .activeZone = z.resInfos .activeZone)
    (ho : z'.resInfos .openZone = z.resInfos .openZone) :
    ∃ z₁, acquireZoneResource (acquireZoneResource z' .activeZone).2 .openZone = (true, z₁) ∧
      z₁.zoneDescs = z'.zoneDescs ∧ Inv sp zp (changeZoneState z₁ zid st) := by
  have hok := h.zone zid hz
  have hcap : 0 < (z.zoneDescs zid).zoneCapacity := by
    rw [h.capacity zid hz]
    have := hl.nonempty (by omega)
    have := hl.aligned
    omega
  have hla := h.active_lt hz (by rw [hs]; rfl)
  have hlo := h.opened_lt hz (by rw [hs]; rfl)
  simp only [ZoneOk, hs] at hok
  have he : acquireZoneResource z' .activeZone = (true, z'.setAcquired .activeZone _) :=
    acquire_of_lt (by rw [ha]; exact hla) (by rw [ha]; exact h.activeTotal) hl.count
  rw [he]
  refine ⟨_, acquire_of_lt (by simpa [ho] using hlo)
    (by simpa [ho] using h.openTotal) hl.count, rfl, ?_⟩
  refine h.move (d := { z.zoneDescs zid with state := st, zrwav := zrwa }) hz
    ⟨by simp [hsp], by simp [hzp], by simp [hds], ?_, ?_, ?_, ?_⟩ rfl rfl ?_ hzr
  all_goals cases st <;> simp_all [ZoneState.isActive, ZoneState.isOpen, ZoneOk]

theorem open_inv (hl : Layout sp zp) (h : Inv sp zp z) (hz : zid < zp.nrZones) {zrwa : Bool}
    (hzr : zrwa = true → ZrwaConfig zp) : Inv sp zp (zmgmtSendOpenZone z zid zrwa).2 := by
  have hok := h.zone zid hz
  unfold zmgmtSendOpenZone
  split <;> rename_i hs <;> simp only [ZoneOk, hs] at hok
  · split
    · exact h
    split
    · exact h
    split
    · exact h
    cases zrwa with
    | false =>
      have hd : { z.zoneDescs zid with zrwav := false } = z.zoneDescs zid := by rw [← hok.2]
      obtain ⟨z₁, he, -, hi⟩ := h.openFromEmpty hl hz hs .openedExpl rfl false hzr z rfl rfl
        (by simp [hd]) rfl rfl
      simpa [openClosedZone, he] using hi
    | true =>
      obtain ⟨z₁, he, -, hi⟩ := h.openFromEmpty hl hz hs .openedExpl rfl true hzr
        ((acquireZoneResource z .zrwaZone).2.setDesc zid { z.zoneDescs zid with zrwav := true })
        (by simp) (by simp) (by simp) (acquire_resInfos_of_ne _ _ (by simp))
        (acquire_resInfos_of_ne _ _ (by simp))
      simpa [openClosedZone, he] using hi
  · obtain ⟨z₁, he, -, hi⟩ := h.openFromClosed hl hz hs .openedExpl rfl
    simpa [openClosedZone, he] using hi
  · refine h.move (d := { z.zoneDescs zid with state := .openedExpl }) hz
      ⟨rfl, rfl, rfl, rfl, rfl, ?_, ?_⟩ rfl rfl hok (h.zrwa zid hz)
    all_goals simp [hs, ZoneState.isActive, ZoneState.isOpen]
  · exact h
  · exact h

section Fields

variable (z) (zid : Nat) (b : Buffer) (ref : BufferRef)

@[simp] theorem setBuffer_sp : (z.setBuffer b ref).ssd.sp = z.ssd.sp := by cases ref <;> rfl
@[simp] theorem setBuffer_zp : (z.setBuffer b ref).zp = z.zp := by cases ref <;> rfl
@[simp] theorem setBuffer_zoneDescs : (z.setBuffer b ref).zoneDescs = z.zoneDescs := by
  cases ref <;> rfl
@[simp] theorem setBuffer_resInfos : (z.setBuffer b ref).resInfos = z.resInfos := by
  cases ref <;> rfl

@[simp] theorem resetZone_sp : (resetZone z zid).ssd.sp = z.ssd.sp := by
  unfold resetZone; simp only []; split <;> simp
@[simp] theorem resetZone_zp : (resetZone z zid).zp = z.zp := by
  unfold resetZone; simp only []; split <;> simp
@[simp] theorem resetZone_resInfos : (resetZone z zid).resInfos = z.resInfos := by
  unfold resetZone; simp only []; split <;> simp
@[simp] theorem resetZone_zoneDescs : (resetZone z zid).zoneDescs = update z.zoneDescs zid
    { z.zoneDescs zid with wp := (z.zoneDescs zid).zslba, zrwav := false } := by
  unfold resetZone; simp only []; split <;> simp

end Fields

theorem Inv.setBuffer (h : Inv sp zp z) (b : Buffer) (ref : BufferRef) :
    Inv sp zp (z.setBuffer b ref) :=
  h.same (by simp) (by simp) (by simp) (by simp)

theorem Inv.setPerf (h : Inv sp zp z) (perf : τ) : Inv sp zp (z.setPerf perf) :=
  h.same rfl rfl rfl rfl

theorem reset_inv (hl : Layout sp zp) (h : Inv sp zp z) (hz : zid < zp.nrZones) :
    Inv sp zp (zmgmtSendResetZone z zid).2 := by
  -- the descriptor of a zone that was just reset, in every branch
  let d : ZoneDescriptor :=
    { z.zoneDescs zid with state := .empty, wp := (z.zoneDescs zid).zslba, zrwav := false }
  have hd : ZoneOk d := ⟨rfl, rfl⟩
  have hzr : d.zrwav = true → ZrwaConfig zp := by simp [d]
  unfold zmgmtSendResetZone
  split <;> rename_i hs
  case h_1 | h_2 | h_3 =>
    exact h.deactivate (d := d) hl hz (by rw [hs]; rfl) (by simp) (by simp) (by simp [d]) (by simp)
      (by simp [hs, ZoneState.isOpen]) rfl rfl hd rfl hzr
  case h_4 | h_5 =>
    refine h.move (d := d) hz ⟨by simp, by simp, by simp [d], by simp, by simp, ?_, ?_⟩ rfl rfl hd hzr
    all_goals simp [hs, d, ZoneState.isActive, ZoneState.isOpen]
  case h_6 => exact h

theorem offline_inv (h : Inv sp zp z) (hz : zid < zp.nrZones) :
    Inv sp zp (zmgmtSendOfflineZone z zid).2 := by
  have hok := h.zone zid hz
  unfold zmgmtSendOfflineZone
  split <;> rename_i hs
  · simp [ZoneOk, hs] at hok
  · exact h
  · exact h

/-! ## Addresses -/

theorem Inv.zoneLbas_eq (hl : Layout sp zp) (h : Inv sp zp z) : zoneLbas z = zp.zoneSize / 512 := by
  unfold zoneLbas; rw [h.zp_eq, h.sp_eq, hl.sectors.secsz]

/-- A zone has at least one page. -/
theorem Layout.zoneLbas_ge (hl : Layout sp zp) (hz : zid < zp.nrZones) : 8 ≤ zp.zoneSize / 512 := by
  have := hl.nonempty (by omega)
  have := hl.aligned
  omega

theorem Layout.mul_lt (hl : Layout sp zp) (hz : zid < zp.nrZones) :
    zid * (zp.zoneSize / 512) + zp.zoneSize / 512 < 2 ^ 32 := by
  have : (zid + 1) * (zp.zoneSize / 512) ≤ zp.nrZones * (zp.zoneSize / 512) :=
    Nat.mul_le_mul_right _ hz
  have := hl.small
  rw [Nat.succ_mul] at *
  omega

theorem Inv.zoneToSlba_eq (hl : Layout sp zp) (h : Inv sp zp z) (hz : zid < zp.nrZones) :
    zoneToSlba z zid = zid * (zp.zoneSize / 512) := by
  have := hl.mul_lt hz
  have := hl.count
  unfold zoneToSlba
  rw [h.zoneLbas_eq hl, u32_of_lt (show zid < 2 ^ 32 by omega), u32_of_lt (by omega)]

theorem Inv.zoneToElba_eq (hl : Layout sp zp) (h : Inv sp zp z) (hz : zid < zp.nrZones) :
    zoneToElba z zid = zid * (zp.zoneSize / 512) + zp.zoneSize / 512 - 1 := by
  have h1 := hl.mul_lt hz
  have h2 := hl.count
  have h3 := hl.zoneLbas_ge hz
  unfold zoneToElba zoneToSlba
  rw [h.zoneLbas_eq hl, u32_of_lt (n := zid + 1) (by omega), u32_of_lt (n := zid + 1) (by omega),
    Nat.succ_mul, u32_of_lt (by omega), sub64_of_le (by omega) (by omega)]

/-- The zone of a logical block. -/
theorem Inv.lbaToZone_eq (hl : Layout sp zp) (h : Inv sp zp z) (hz : zid < zp.nrZones) {lba : Nat}
    (h1 : zid * (zp.zoneSize / 512) ≤ lba) (h2 : lba < zid * (zp.zoneSize / 512) + zp.zoneSize / 512) :
    lbaToZone z lba = zid := by
  have := hl.count
  have hdiv : lba / (zp.zoneSize / 512) = zid := by
    apply Nat.div_eq_of_lt_le h1
    rw [Nat.succ_mul]; exact h2
  unfold lbaToZone
  rw [h.zoneLbas_eq hl, hdiv, u32_of_lt (by omega)]

/-- A block that is reported to be in zone `zid` is there, below 2^34. -/
theorem Inv.lt_of_lbaToZone (hl : Layout sp zp) (h : Inv sp zp z) (hz : zid < zp.nrZones) {lba : Nat}
    (hlba : lba < 2 ^ 34) (he : lbaToZone z lba = zid) :
    zid * (zp.zoneSize / 512) ≤ lba ∧ lba < zid * (zp.zoneSize / 512) + zp.zoneSize / 512 := by
  have h8 := hl.zoneLbas_ge hz
  have hq : lba / (zp.zoneSize / 512) < 2 ^ 32 := by
    have : lba / (zp.zoneSize / 512) ≤ lba / 8 := Nat.div_le_div_left h8 (by omega)
    omega
  unfold lbaToZone at he
  rw [h.zoneLbas_eq hl, u32_of_lt hq] at he
  have hd := Nat.div_add_mod lba (zp.zoneSize / 512)
  have hm := Nat.mod_lt lba (show 0 < zp.zoneSize / 512 by omega)
  rw [he, Nat.mul_comm] at hd
  omega

/-- `lba` is a block of the namespace. -/
def InNs (zp : ZnsParams) (lba : Nat) : Prop := lba < zp.nrZones * (zp.zoneSize / 512)

theorem Inv.lbaToZone_lt (hl : Layout sp zp) (h : Inv sp zp z) {lba : Nat} (hin : InNs zp lba) :
    lbaToZone z lba < zp.nrZones := by
  have h1 := hl.count
  have hq : lba / (zp.zoneSize / 512) < zp.nrZones := by
    refine Nat.div_lt_of_lt_mul ?_
    rw [Nat.mul_comm]; exact hin
  unfold lbaToZone
  rw [h.zoneLbas_eq hl, u32_of_lt (by omega)]
  exact hq

theorem InNs.lt (hl : Layout sp zp) {lba : Nat} (hin : InNs zp lba) : lba < 2 ^ 32 :=
  lt_trans hin hl.small

/-- Both zone lookups agree: a zone is a whole number of pages. -/
theorem Inv.lpnToZone_eq (hl : Layout sp zp) (h : Inv sp zp z) (lba : Nat) :
    lpnToZone z (lbaToLpn z lba) = lbaToZone z lba := by
  have ha := hl.aligned
  unfold lpnToZone lbaToLpn lbaToZone
  rw [h.zoneLbas_eq hl, h.zp_eq, h.sp_eq, hl.sectors.pgsz, hl.sectors.secsPerPg, Nat.div_div_eq_div_mul]
  congr 2
  omega

end Zns

end Nvmev
