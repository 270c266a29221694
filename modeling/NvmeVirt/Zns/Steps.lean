import Mathlib.Logic.Relation
import NvmeVirt.Zns.Invariant

/-!
# What a command does to the zones

Every command of a zoned namespace is a sequence of steps (`Zns.Step`), each of which changes the
descriptor of one zone in one of the ways of `Zns.Change` and moves the resource counters with it. A
step of the open or the active resource always follows the zone; the ZRWA resource does so too, unless
the step is a `leak`. The steps do not depend on the sizes of the zones, so they are those of
namespaces of any size.

`Zns.Counters` is what the steps keep.
-/

namespace Nvmev

open CInt Function Tally Outcome

/-- The zone holds a ZRWA resource. -/
def ZoneDescriptor.holdsZrwa (d : ZoneDescriptor) : Bool := d.zrwav && d.state.isActive

namespace Zns

variable {τ : Type}

/-- What a handler does to the descriptor of one zone. `mayAdvance d wp`: the command may move the
write pointer of `d` to `wp`. -/
inductive Change (mayAdvance : ZoneDescriptor → Nat → Prop) (d : ZoneDescriptor) :
    ZoneDescriptor → Prop where
  | close (h : d.state.isOpen = true) : Change mayAdvance d { d with state := .closed }
  | finish (h : d.state.isActive = true ∨ d.state = .empty) :
    Change mayAdvance d { d with state := .full }
  | openEmpty (h : d.state = .empty) (zrwa : Bool) {st : ZoneState} (hst : st.isOpen = true) :
    Change mayAdvance d { d with state := st, zrwav := zrwa }
  /-- A closed zone is opened again, or an implicitly opened one explicitly. -/
  | reopen (h : d.state.isActive = true) {st : ZoneState} (hst : st.isOpen = true) :
    Change mayAdvance d { d with state := st }
  | reset : Change mayAdvance d { d with state := .empty, wp := d.zslba, zrwav := false }
  | advance (h : d.state.isOpen = true) {wp : Nat} (hwp : mayAdvance d wp) :
    Change mayAdvance d { d with wp }
  /-- The write pointer reaches the end of the zone. -/
  | fill (h : d.state.isOpen = true) {wp : Nat} (hwp : mayAdvance d wp) :
    Change mayAdvance d { d with wp, state := .full }
  /-- An explicit flush of a random write area. -/
  | flush (h : d.state.isActive = true) (hz : d.zrwav = true) {wp : Nat} (hwp : mayAdvance d wp) :
    Change mayAdvance d { d with wp }
  | flushFull (h : d.state.isActive = true) (hz : d.zrwav = true) {wp : Nat}
    (hwp : mayAdvance d wp) : Change mayAdvance d { d with wp, state := .full }
  | offline (h : d.state = .readOnly) : Change mayAdvance d { d with state := .offline }

/-- One step of a handler: nothing that this file looks at, or a change of one zone. -/
inductive Step (mayAdvance : ZoneDescriptor → Nat → Prop) (leak : Prop) (z z' : ZnsFtl τ) : Prop where
  | same (sp_eq : z'.ssd.sp = z.ssd.sp) (zp_eq : z'.zp = z.zp) (descs : z'.zoneDescs = z.zoneDescs)
    (res : z'.resInfos = z.resInfos) (wb : z'.zoneWriteBuffer = z.zoneWriteBuffer)
  | zone (zid : Nat) (d : ZoneDescriptor) (hz : zid < z.zp.nrZones)
    (change : Change mayAdvance (z.zoneDescs zid) d) (move : Move z z' zid d)
    (zrwaTotal : (z'.resInfos .zrwaZone).totalCnt = (z.resInfos .zrwaZone).totalCnt)
    (zrwaLe : (z'.resInfos .zrwaZone).acquiredCnt ≤ z.zp.nrZones)
    (zrwa : (z'.resInfos .zrwaZone).acquiredCnt + (z.zoneDescs zid).holdsZrwa.toNat =
        (z.resInfos .zrwaZone).acquiredCnt + d.holdsZrwa.toNat ∨
      (leak ∧ d.holdsZrwa = false ∧
        (z'.resInfos .zrwaZone).acquiredCnt = (z.resInfos .zrwaZone).acquiredCnt))
    (wb : z'.zoneWriteBuffer = z.zoneWriteBuffer)

/-- A sequence of steps. -/
def Steps (mayAdvance : ZoneDescriptor → Nat → Prop) (leak : Prop) : ZnsFtl τ → ZnsFtl τ → Prop :=
  Relation.ReflTransGen (Step mayAdvance leak)

theorem Steps.single {mayAdvance : ZoneDescriptor → Nat → Prop} {leak : Prop} {z z' : ZnsFtl τ}
    (h : Step mayAdvance leak z z') : Steps mayAdvance leak z z' := Relation.ReflTransGen.single h

theorem Steps.params_eq {mayAdvance : ZoneDescriptor → Nat → Prop} {leak : Prop} {z z' : ZnsFtl τ}
    (h : Steps mayAdvance leak z z') : z'.ssd.sp = z.ssd.sp ∧ z'.zp = z.zp := by
  induction h with
  | refl => exact ⟨rfl, rfl⟩
  | tail _ hstep ih =>
    cases hstep with
    | same hsp hzp _ _ _ => exact ⟨hsp.trans ih.1, hzp.trans ih.2⟩
    | zone _ _ _ _ m _ _ _ _ => exact ⟨m.sp_eq.trans ih.1, m.zp_eq.trans ih.2⟩

theorem Steps.wb_eq {mayAdvance : ZoneDescriptor → Nat → Prop} {leak : Prop} {z z' : ZnsFtl τ}
    (h : Steps mayAdvance leak z z') : z'.zoneWriteBuffer = z.zoneWriteBuffer := by
  induction h with
  | refl => rfl
  | tail _ hstep ih =>
    cases hstep with
    | same _ _ _ _ hwb => exact hwb.trans ih
    | zone _ _ _ _ _ _ _ _ hwb => exact hwb.trans ih

/-- What every change of a descriptor keeps, a sequence of steps keeps for every zone. -/
theorem Steps.forall {mayAdvance : ZoneDescriptor → Nat → Prop} {leak : Prop} {z z' : ZnsFtl τ}
    {Q : Nat → ZoneDescriptor → Prop} (h : Steps mayAdvance leak z z')
    (hQ : ∀ i d d', Change mayAdvance d d' → Q i d → Q i d') (hz : ∀ i, Q i (z.zoneDescs i)) :
    ∀ i, Q i (z'.zoneDescs i) := by
  induction h with
  | refl => exact hz
  | tail _ hstep ih =>
    cases hstep with
    | same _ _ hd _ _ =>
      rw [hd]
      exact ih
    | zone zid d _ hc m _ _ _ _ =>
      intro i
      rw [m.descs]
      by_cases hi : i = zid
      · subst hi
        rw [update_self]
        exact hQ i _ _ hc (ih i)
      · rw [update_of_ne hi]
        exact ih i

/-- The counters of the resources, for `n` zones. The ZRWA resource may have leaked. -/
structure Counters (n : Nat) (z : ZnsFtl τ) : Prop where
  nrZones : z.zp.nrZones = n
  small : n < 2 ^ 32
  activeTotal : (z.resInfos .activeZone).totalCnt = n
  openTotal : (z.resInfos .openZone).totalCnt = n
  zrwaTotal : (z.resInfos .zrwaZone).totalCnt = n
  active : (z.resInfos .activeZone).acquiredCnt =
    tally (Finset.range n) fun i => (z.zoneDescs i).state.isActive
  opened : (z.resInfos .openZone).acquiredCnt =
    tally (Finset.range n) fun i => (z.zoneDescs i).state.isOpen
  zrwaGe : tally (Finset.range n) (fun i => (z.zoneDescs i).holdsZrwa) ≤
    (z.resInfos .zrwaZone).acquiredCnt
  zrwaLe : (z.resInfos .zrwaZone).acquiredCnt ≤ n
  empty : ∀ i < n, (z.zoneDescs i).state = .empty → (z.zoneDescs i).zrwav = false

variable {mayAdvance : ZoneDescriptor → Nat → Prop} {leak : Prop} {n : Nat} {z z' : ZnsFtl τ}
  {zid : Nat} {d : ZoneDescriptor}

/-- Only a reset makes a zone empty. -/
theorem Change.empty {d d' : ZoneDescriptor} (h : Change mayAdvance d d')
    (he : d'.state = .empty) : d'.zrwav = false := by
  cases h with
  | reset => rfl
  | openEmpty _ _ hst | reopen _ hst =>
    simp only at he
    rw [he] at hst
    cases hst
  | advance h _ =>
    simp only at he
    rw [he] at h
    cases h
  | flush h _ _ =>
    simp only at he
    rw [he] at h
    cases h
  | _ => cases he

/-- The counters do not read the buffers. -/
theorem Counters.same (h : Counters n z) (hzp : z'.zp = z.zp) (hd : z'.zoneDescs = z.zoneDescs)
    (hr : z'.resInfos = z.resInfos) : Counters n z' := by
  obtain ⟨h1, h2, h3, h4, h5, h6, h7, h8, h9, h10⟩ := h
  exact ⟨by rw [hzp, h1], h2, by rw [hr, h3], by rw [hr, h4], by rw [hr, h5], by rw [hr, hd, h6],
    by rw [hr, hd, h7], by rwa [hr, hd], by rwa [hr], by rwa [hd]⟩

theorem Counters.step (h : Counters n z) (hs : Step mayAdvance leak z z') : Counters n z' := by
  cases hs with
  | same _ hzp hd hr _ => exact h.same hzp hd hr
  | zone zid d hz change m htot hle hzrwa _ =>
    rw [h.nrZones] at hz hle
    have hmem : zid ∈ Finset.range n := Finset.mem_range.mpr hz
    have hta := tally_update (Finset.range n) z.zoneDescs (fun d => d.state.isActive) hmem d
    have hto := tally_update (Finset.range n) z.zoneDescs (fun d => d.state.isOpen) hmem d
    have htz := tally_update (Finset.range n) z.zoneDescs (fun d => d.holdsZrwa) hmem d
    have ha := m.active
    have ho := m.opened
    have hge := h.zrwaGe
    rw [h.active] at ha
    rw [h.opened] at ho
    refine ⟨by rw [m.zp_eq, h.nrZones], h.small, m.activeTotal.trans h.activeTotal,
      m.openTotal.trans h.openTotal, htot.trans h.zrwaTotal, ?_, ?_, ?_, hle, ?_⟩
    · rw [m.descs]
      omega
    · rw [m.descs]
      omega
    · rw [m.descs]
      obtain hex | ⟨-, hfalse, hsame⟩ := hzrwa
      · omega
      · rw [hfalse] at htz
        simp only [Bool.toNat_false] at htz
        omega
    · intro i hi he
      rw [m.descs] at he ⊢
      by_cases hiz : i = zid
      · subst hiz
        rw [update_self] at he ⊢
        exact change.empty he
      · rw [update_of_ne hiz] at he ⊢
        exact h.empty i hi he

theorem Counters.steps (h : Counters n z) (hs : Steps mayAdvance leak z z') : Counters n z' := by
  induction hs with
  | refl => exact h
  | tail _ hstep ih => exact ih.step hstep

/-- A step without a leak keeps the ZRWA counter at the number of zones that hold the resource. -/
theorem Step.zrwaCnt (hs : Step mayAdvance False z z') (h : Counters n z)
    (he : (z.resInfos .zrwaZone).acquiredCnt =
      tally (Finset.range n) fun i => (z.zoneDescs i).holdsZrwa) :
    (z'.resInfos .zrwaZone).acquiredCnt =
      tally (Finset.range n) fun i => (z'.zoneDescs i).holdsZrwa := by
  cases hs with
  | same _ _ hd hr _ => rw [hr, hd, he]
  | zone zid d hz _ m _ _ hzrwa _ =>
    rw [h.nrZones] at hz
    have htz := tally_update (Finset.range n) z.zoneDescs (fun d => d.holdsZrwa)
      (Finset.mem_range.mpr hz) d
    obtain hex | ⟨hfalse, -⟩ := hzrwa
    · rw [m.descs]
      omega
    · exact hfalse.elim

theorem Steps.zrwaCnt (hs : Steps mayAdvance False z z') (h : Counters n z)
    (he : (z.resInfos .zrwaZone).acquiredCnt =
      tally (Finset.range n) fun i => (z.zoneDescs i).holdsZrwa) :
    (z'.resInfos .zrwaZone).acquiredCnt =
      tally (Finset.range n) fun i => (z'.zoneDescs i).holdsZrwa := by
  induction hs with
  | refl => exact he
  | tail hsteps hstep ih => exact hstep.zrwaCnt (h.steps hsteps) ih

section Fields

variable (z) (type : ZoneResource) (cnt zid : Nat) (d : ZoneDescriptor) (state : ZoneState)

@[simp] theorem setAcquired_wb :
    (z.setAcquired type cnt).zoneWriteBuffer = z.zoneWriteBuffer := rfl
@[simp] theorem release_wb :
    (releaseZoneResource z type).zoneWriteBuffer = z.zoneWriteBuffer := rfl
@[simp] theorem acquire_wb :
    (acquireZoneResource z type).2.zoneWriteBuffer = z.zoneWriteBuffer := by
  unfold acquireZoneResource; split <;> rfl
@[simp] theorem acquire_zrwaBuffer : (acquireZoneResource z type).2.zrwaBuffer = z.zrwaBuffer := by
  unfold acquireZoneResource; split <;> rfl
@[simp] theorem setDesc_wb : (z.setDesc zid d).zoneWriteBuffer = z.zoneWriteBuffer := rfl
@[simp] theorem changeZoneState_wb :
    (changeZoneState z zid state).zoneWriteBuffer = z.zoneWriteBuffer := rfl
@[simp] theorem releaseActive_wb : (releaseActive z zid).zoneWriteBuffer = z.zoneWriteBuffer := by
  unfold releaseActive; simp only []; split <;> rfl
@[simp] theorem resetZone_wb : (resetZone z zid).zoneWriteBuffer = z.zoneWriteBuffer := by
  unfold resetZone; simp only []; split <;> rfl

end Fields

/-! ## Resources of a zone -/

section Resources

variable (h : Counters n z) (hz : zid < n)

include h hz

theorem Counters.active_pos (hs : (z.zoneDescs zid).state.isActive = true) :
    0 < (z.resInfos .activeZone).acquiredCnt ∧ (z.resInfos .activeZone).acquiredCnt ≤ n := by
  rw [h.active]
  exact ⟨tally_pos (p := fun i => (z.zoneDescs i).state.isActive) (Finset.mem_range.mpr hz) hs,
    (tally_le _ _).trans_eq (Finset.card_range _)⟩

theorem Counters.opened_pos (hs : (z.zoneDescs zid).state.isOpen = true) :
    0 < (z.resInfos .openZone).acquiredCnt ∧ (z.resInfos .openZone).acquiredCnt ≤ n := by
  rw [h.opened]
  exact ⟨tally_pos (p := fun i => (z.zoneDescs i).state.isOpen) (Finset.mem_range.mpr hz) hs,
    (tally_le _ _).trans_eq (Finset.card_range _)⟩

theorem Counters.zrwa_pos (hs : (z.zoneDescs zid).holdsZrwa = true) :
    0 < (z.resInfos .zrwaZone).acquiredCnt := by
  have := tally_pos (p := fun i => (z.zoneDescs i).holdsZrwa) (Finset.mem_range.mpr hz) hs
  have := h.zrwaGe
  omega

theorem Counters.active_lt (hs : (z.zoneDescs zid).state.isActive = false) :
    (z.resInfos .activeZone).acquiredCnt < n := by
  rw [h.active]
  exact (tally_lt (p := fun i => (z.zoneDescs i).state.isActive) (Finset.mem_range.mpr hz)
    hs).trans_eq (Finset.card_range _)

theorem Counters.opened_lt (hs : (z.zoneDescs zid).state.isOpen = false) :
    (z.resInfos .openZone).acquiredCnt < n := by
  rw [h.opened]
  exact (tally_lt (p := fun i => (z.zoneDescs i).state.isOpen) (Finset.mem_range.mpr hz)
    hs).trans_eq (Finset.card_range _)

end Resources

/-- An active zone that gives its resources back and gets the descriptor `d`, which is not active. -/
theorem Counters.deactivate (h : Counters n z) (hz : zid < n)
    (hact : (z.zoneDescs zid).state.isActive = true)
    (change : Change mayAdvance (z.zoneDescs zid) d) (hsp : z'.ssd.sp = z.ssd.sp) (hzp : z'.zp = z.zp)
    (hds : z'.zoneDescs = update z.zoneDescs zid d)
    (ha : z'.resInfos .activeZone = (releaseZoneResource z .activeZone).resInfos .activeZone)
    (ho : z'.resInfos .openZone =
      if (z.zoneDescs zid).state.isOpen then (releaseZoneResource z .openZone).resInfos .openZone
      else z.resInfos .openZone)
    (hzr : z'.resInfos .zrwaZone =
        (if (z.zoneDescs zid).zrwav then (releaseZoneResource z .zrwaZone).resInfos .zrwaZone
          else z.resInfos .zrwaZone) ∨
      (leak ∧ z'.resInfos .zrwaZone = z.resInfos .zrwaZone))
    (hd : d.state.isActive = false) (hwb : z'.zoneWriteBuffer = z.zoneWriteBuffer) :
    Step mayAdvance leak z z' := by
  have hn := h.small
  have hpa := h.active_pos hz hact
  have hzle := h.zrwaLe
  have hdo : d.state.isOpen = false := by
    revert hd
    cases d.state <;> simp [ZoneState.isActive, ZoneState.isOpen]
  have hdz : d.holdsZrwa = false := by simp [ZoneDescriptor.holdsZrwa, hd]
  refine .zone zid d (by rwa [h.nrZones]) change ⟨hsp, hzp, hds, ?_, ?_, ?_, ?_⟩ ?_ ?_ ?_ hwb
  · rw [ha]
    simp
  · rw [ho]
    split <;> simp
  · rw [ha, hact, hd]
    simp [u32_release hpa.1 (by omega)]
    omega
  · rw [ho, hdo]
    split
    · rename_i hop
      have hpo := h.opened_pos hz hop
      simp [hop, u32_release hpo.1 (by omega)]
      omega
    · rename_i hop
      simp [hop]
  · obtain hzr | ⟨-, hzr⟩ := hzr
    · rw [hzr]
      split <;> simp
    · rw [hzr]
  · rw [h.nrZones]
    obtain hzr | ⟨-, hzr⟩ := hzr
    · rw [hzr]
      split
      · rename_i hv
        have hpz := h.zrwa_pos hz (by simp [ZoneDescriptor.holdsZrwa, hv, hact])
        simp [u32_release hpz (by omega)]
        omega
      · exact hzle
    · rw [hzr]
      exact hzle
  · obtain hzr | ⟨hleak, hzr⟩ := hzr
    · left
      rw [hzr, hdz]
      split
      · rename_i hv
        have hpz := h.zrwa_pos hz (by simp [ZoneDescriptor.holdsZrwa, hv, hact])
        simp [ZoneDescriptor.holdsZrwa, hv, hact, u32_release hpz (by omega)]
        omega
      · rename_i hv
        simp [ZoneDescriptor.holdsZrwa, hv]
    · exact .inr ⟨hleak, hdz, by rw [hzr]⟩

/-- A zone that stays as active and as open as it is. -/
theorem Counters.stay (h : Counters n z) (hz : zid < n)
    (change : Change mayAdvance (z.zoneDescs zid) d) (hsp : z'.ssd.sp = z.ssd.sp) (hzp : z'.zp = z.zp)
    (hds : z'.zoneDescs = update z.zoneDescs zid d) (hr : z'.resInfos = z.resInfos)
    (ha : d.state.isActive = (z.zoneDescs zid).state.isActive)
    (ho : d.state.isOpen = (z.zoneDescs zid).state.isOpen)
    (hv : d.holdsZrwa = (z.zoneDescs zid).holdsZrwa)
    (hwb : z'.zoneWriteBuffer = z.zoneWriteBuffer) : Step mayAdvance leak z z' :=
  .zone zid d (by rwa [h.nrZones]) change
    ⟨hsp, hzp, hds, by rw [hr], by rw [hr], by rw [hr, ha], by rw [hr, ho]⟩ (by rw [hr])
    (by rw [hr, h.nrZones]; exact h.zrwaLe) (.inl (by rw [hr, hv])) hwb

theorem isActive_of_isOpen {st : ZoneState} (h : st.isOpen = true) : st.isActive = true := by
  revert h
  cases st <;> simp [ZoneState.isActive, ZoneState.isOpen]

variable (mayAdvance leak) in
/-- A closed zone gets an open resource. -/
theorem Counters.reopen (h : Counters n z) (hz : zid < n)
    (hs : (z.zoneDescs zid).state = .closed) (st : ZoneState) (hst : st.isOpen = true) :
    ∃ z₁, acquireZoneResource z .openZone = (true, z₁) ∧ z₁.ssd = z.ssd ∧ z₁.zp = z.zp ∧
      z₁.zoneDescs = z.zoneDescs ∧ Step mayAdvance leak z (changeZoneState z₁ zid st) := by
  have hlt := h.opened_lt hz (by rw [hs]; rfl)
  refine ⟨_, acquire_of_lt hlt h.openTotal h.small, rfl, rfl, rfl, ?_⟩
  have hact := isActive_of_isOpen hst
  have hca : ZoneState.closed.isActive = true := rfl
  have hco : ZoneState.closed.isOpen = false := rfl
  refine .zone zid { z.zoneDescs zid with state := st } (by rwa [h.nrZones])
    (.reopen (by rw [hs]; rfl) hst) ⟨rfl, rfl, rfl, ?_, ?_, ?_, ?_⟩ ?_ ?_ (.inl ?_) rfl
  · simp
  · simp
  · simp [hs, hact, hca]
  · simp [hs, hst, hco]
  · simp
  · simpa [h.nrZones] using h.zrwaLe
  · simp [ZoneDescriptor.holdsZrwa, hs, hact, hca]

variable (mayAdvance leak) in
/-- An empty zone gets an active and an open resource. `z'` is `z` with the zone marked as a ZRWA
zone, and with its ZRWA resource, if `zrwa`. -/
theorem Counters.openEmpty (h : Counters n z) (hz : zid < n)
    (hs : (z.zoneDescs zid).state = .empty) (st : ZoneState) (hst : st.isOpen = true) (zrwa : Bool)
    (z' : ZnsFtl τ) (hssd : z'.ssd = z.ssd) (hzp : z'.zp = z.zp)
    (hds : z'.zoneDescs = update z.zoneDescs zid { z.zoneDescs zid with zrwav := zrwa })
    (ha : z'.resInfos .activeZone = z.resInfos .activeZone)
    (ho : z'.resInfos .openZone = z.resInfos .openZone)
    (hzt : (z'.resInfos .zrwaZone).totalCnt = (z.resInfos .zrwaZone).totalCnt)
    (hzc : (z'.resInfos .zrwaZone).acquiredCnt = (z.resInfos .zrwaZone).acquiredCnt + zrwa.toNat)
    (hzle : (z'.resInfos .zrwaZone).acquiredCnt ≤ n)
    (hwb : z'.zoneWriteBuffer = z.zoneWriteBuffer) :
    ∃ z₁, acquireZoneResource (acquireZoneResource z' .activeZone).2 .openZone = (true, z₁) ∧
      z₁.ssd = z.ssd ∧ z₁.zp = z.zp ∧ z₁.zoneDescs = z'.zoneDescs ∧
      Step mayAdvance leak z (changeZoneState z₁ zid st) := by
  have hla := h.active_lt hz (by rw [hs]; rfl)
  have hlo := h.opened_lt hz (by rw [hs]; rfl)
  have he : acquireZoneResource z' .activeZone = (true, z'.setAcquired .activeZone _) :=
    acquire_of_lt (by rw [ha]; exact hla) (by rw [ha]; exact h.activeTotal) h.small
  have hact := isActive_of_isOpen hst
  have hea : ZoneState.empty.isActive = false := rfl
  have heo : ZoneState.empty.isOpen = false := rfl
  rw [he]
  refine ⟨_, acquire_of_lt (by simpa [ho] using hlo) (by simpa [ho] using h.openTotal) h.small,
    by simp [hssd], by simp [hzp], rfl, ?_⟩
  refine .zone zid { z.zoneDescs zid with state := st, zrwav := zrwa } (by rwa [h.nrZones])
    (.openEmpty hs zrwa hst) ⟨by simp [hssd], by simp [hzp], by simp [hds], ?_, ?_, ?_, ?_⟩ ?_ ?_
    (.inl ?_) (by simp [hwb])
  · simp [ha]
  · simp [ho]
  · simp [ha, hs, hact, hea]
  · simp [ho, hs, hst, heo]
  · simpa using hzt
  · simpa [h.nrZones] using hzle
  · simp [ZoneDescriptor.holdsZrwa, hs, hact, hzc, hea]

/-! ## Zone management -/

section Management

variable (h : Counters n z) (hz : zid < n)

include h hz

theorem Counters.close : Steps mayAdvance leak z (zmgmtSendCloseZone z zid).2 := by
  have hn := h.small
  have hclose (ho : (z.zoneDescs zid).state.isOpen = true) :
      Step mayAdvance leak z (releaseZoneResource (changeZoneState z zid .closed) .openZone) := by
    have hp := h.opened_pos hz ho
    have hact := isActive_of_isOpen ho
    have hca : ZoneState.closed.isActive = true := rfl
    have hco : ZoneState.closed.isOpen = false := rfl
    refine .zone zid { z.zoneDescs zid with state := .closed } (by rwa [h.nrZones]) (.close ho)
      ⟨rfl, rfl, rfl, ?_, ?_, ?_, ?_⟩ ?_ ?_ (.inl ?_) rfl
    · simp
    · simp
    · simp [hact, hca]
    · simp [ho, hco, u32_release hp.1 (by omega)]
      omega
    · simp
    · simpa [h.nrZones] using h.zrwaLe
    · simp [ZoneDescriptor.holdsZrwa, hact, hca]
  unfold zmgmtSendCloseZone
  split
  · rename_i hs
    exact .single (hclose (by rw [hs]; rfl))
  · rename_i hs
    exact .single (hclose (by rw [hs]; rfl))
  · exact .refl
  · exact .refl

theorem Counters.finish : Steps mayAdvance leak z (zmgmtSendFinishZone z zid).2 := by
  unfold zmgmtSendFinishZone
  split <;> rename_i hs
  case h_1 | h_2 | h_3 =>
    exact .single (h.deactivate (d := { z.zoneDescs zid with state := .full }) hz (by rw [hs]; rfl)
      (.finish (.inl (by rw [hs]; rfl))) (by simp) (by simp) (by simp) (by simp)
      (by simp [hs, ZoneState.isOpen]) (.inl (by simp)) rfl (by simp))
  case h_4 =>
    exact .single (h.stay (d := { z.zoneDescs zid with state := .full }) hz (.finish (.inr hs)) rfl
      rfl rfl rfl (by rw [hs]; rfl) (by rw [hs]; rfl)
      (by simp [ZoneDescriptor.holdsZrwa, hs, ZoneState.isActive]) rfl)
  all_goals exact .refl

theorem Counters.open (zrwa : Bool) :
    Steps mayAdvance leak z (zmgmtSendOpenZone z zid zrwa).2 := by
  unfold zmgmtSendOpenZone
  split
  · rename_i hs
    have hv := h.empty zid hz hs
    split
    · exact .refl
    split
    · exact .refl
    split
    · exact .refl
    rename_i hfull
    cases zrwa with
    | false =>
      have hd : { z.zoneDescs zid with zrwav := false } = z.zoneDescs zid := by rw [← hv]
      obtain ⟨z₁, he, -, -, -, hi⟩ := h.openEmpty mayAdvance leak hz hs .openedExpl rfl false
        z rfl rfl (by simp [hd]) rfl rfl rfl rfl h.zrwaLe rfl
      simpa [openClosedZone, he] using Steps.single hi
    | true =>
      have hlt : (z.resInfos .zrwaZone).acquiredCnt < n := by
        have hle := h.zrwaLe
        simp only [isZoneResourceFull, h.zrwaTotal, Bool.true_and, beq_iff_eq] at hfull
        omega
      have hacq := acquire_of_lt hlt h.zrwaTotal h.small
      obtain ⟨z₁, he, -, -, -, hi⟩ := h.openEmpty mayAdvance leak hz hs .openedExpl rfl true
        ((acquireZoneResource z .zrwaZone).2.setDesc zid { z.zoneDescs zid with zrwav := true })
        (by simp) (by simp) (by simp)
        (acquire_resInfos_of_ne _ _ (by simp)) (acquire_resInfos_of_ne _ _ (by simp))
        (by rw [hacq]; simp) (by rw [hacq]; simp) (by rw [hacq]; simpa using Nat.succ_le_of_lt hlt)
        (by simp)
      simpa [openClosedZone, he] using Steps.single hi
  · rename_i hs
    obtain ⟨z₁, he, -, -, -, hi⟩ := h.reopen mayAdvance leak hz hs .openedExpl rfl
    simpa [openClosedZone, he] using Steps.single hi
  · rename_i hs
    exact .single (h.stay (d := { z.zoneDescs zid with state := .openedExpl }) hz
      (.reopen (by rw [hs]; rfl) rfl) rfl rfl rfl rfl (by rw [hs]; rfl) (by rw [hs]; rfl)
      (by simp [ZoneDescriptor.holdsZrwa, hs, ZoneState.isActive]) rfl)
  · exact .refl
  · exact .refl

theorem Counters.reset : Steps mayAdvance leak z (zmgmtSendResetZone z zid).2 := by
  -- the descriptor of a zone that was just reset, in every branch
  let d : ZoneDescriptor :=
    { z.zoneDescs zid with state := .empty, wp := (z.zoneDescs zid).zslba, zrwav := false }
  unfold zmgmtSendResetZone
  split <;> rename_i hs
  case h_1 | h_2 | h_3 =>
    exact .single (h.deactivate (d := d) hz (by rw [hs]; rfl) .reset (by simp) (by simp) (by simp [d])
      (by simp) (by simp [hs, ZoneState.isOpen]) (.inl (by simp)) rfl (by simp))
  case h_4 | h_5 =>
    exact .single (h.stay (d := d) hz .reset (by simp) (by simp) (by simp [d]) (by simp)
      (by simp [d, hs, ZoneState.isActive]) (by simp [d, hs, ZoneState.isOpen])
      (by simp [ZoneDescriptor.holdsZrwa, d, hs, ZoneState.isActive]) (by simp))
  case h_6 => exact .refl

theorem Counters.offline : Steps mayAdvance leak z (zmgmtSendOfflineZone z zid).2 := by
  unfold zmgmtSendOfflineZone
  split
  · rename_i hs
    exact .single (h.stay (d := { z.zoneDescs zid with state := .offline }) hz (.offline hs) rfl rfl
      rfl rfl (by rw [hs]; rfl) (by rw [hs]; rfl)
      (by simp [ZoneDescriptor.holdsZrwa, hs, ZoneState.isActive]) rfl)
  · exact .refl
  · exact .refl

/-- An accepted explicit flush. -/
theorem Counters.flushZrwaTo (hact : (z.zoneDescs zid).state.isActive = true)
    (hv : (z.zoneDescs zid).zrwav = true) {slba : Nat}
    (hwp : mayAdvance (z.zoneDescs zid) (u64 (slba + 1))) :
    Step mayAdvance leak z (flushZrwaTo z zid slba) := by
  unfold Nvmev.flushZrwaTo
  simp only [setDesc_zoneDescs, update_self]
  split
  · refine h.deactivate (d := { z.zoneDescs zid with wp := u64 (slba + 1), state := .full }) hz hact
      (.flushFull hact hv hwp) ?_ ?_ ?_ ?_ ?_ (.inl ?_) rfl ?_
    · split <;> rfl
    · split <;> rfl
    · split <;> simp
    · split <;> simp
    · revert hact
      cases (z.zoneDescs zid).state <;> simp [ZoneState.isActive, ZoneState.isOpen]
    · split <;> simp [hv]
    · split <;> simp
  · exact h.stay (d := { z.zoneDescs zid with wp := u64 (slba + 1) }) hz (.flush hact hv hwp) rfl rfl
      rfl rfl rfl rfl rfl rfl

end Management

/-- `mayAdvance` allows the explicit flushes of a configuration. -/
def AllowsFlush (mayAdvance : ZoneDescriptor → Nat → Prop) (zp : ZnsParams) : Prop :=
  ∀ d slba, slba < 2 ^ 63 → d.zrwav = true → d.wp ≤ slba →
    slba ≤ sub64 (u64 (d.wp + zp.lbasPerZrwa)) 1 → mayAdvance d (u64 (slba + 1))

theorem Counters.flushExplicit (h : Counters n z) (hadv : AllowsFlush mayAdvance z.zp) {slba : Nat}
    (hlt : slba < 2 ^ 63) (hz : lbaToZone z slba < n) :
    Partial (zmgmtSendFlushExplicitZrwa z slba) fun r => Steps mayAdvance leak z r.2 := by
  unfold zmgmtSendFlushExplicitZrwa
  simp only []
  split
  · exact .ret .refl
  rename_i hv
  split
  · exact .ret .refl
  rename_i hwin
  refine Partial.bind .ensure fun _ _ => ?_
  split
  · exact .ret .refl
  have hv' : (z.zoneDescs (lbaToZone z slba)).zrwav = true := by simpa using hv
  rw [not_not, le_min_iff] at hwin
  have hwp := hadv _ slba hlt hv' hwin.1 hwin.2.1
  split
  · rename_i hs
    exact .ret (.single (h.flushZrwaTo hz (by rw [hs]; rfl) hv' hwp))
  · rename_i hs
    exact .ret (.single (h.flushZrwaTo hz (by rw [hs]; rfl) hv' hwp))
  · rename_i hs
    exact .ret (.single (h.flushZrwaTo hz (by rw [hs]; rfl) hv' hwp))
  · exact .ret .refl

theorem Counters.zmgmtSend (h : Counters n z) (hadv : AllowsFlush mayAdvance z.zp) {junk slba : Nat}
    (hlt : slba < 2 ^ 63) (hz : lbaToZone z slba < n) (action : ZoneSendAction) (option : Bool) :
    Partial (zmgmtSend z junk slba action option) fun r => Steps mayAdvance leak z r.2 := by
  unfold Nvmev.zmgmtSend
  simp only []
  split
  · exact .ret (h.close hz)
  · exact .ret (h.finish hz)
  · exact .ret (h.open hz _)
  · exact .ret (h.reset hz)
  · exact .ret (h.offline hz)
  · exact h.flushExplicit hadv hlt hz
  · exact .ret .refl
  · exact .ret .refl

/-- A zone that is found by the address of its first block exists, also where that address does not
fit 32 bits. -/
theorem lbaToZone_zoneToSlba_lt (hz : zid < n) (hn : n < 2 ^ 32) :
    lbaToZone z (zoneToSlba z zid) < n := by
  have hdiv : zoneToSlba z zid / zoneLbas z ≤ zid := by
    calc zoneToSlba z zid / zoneLbas z ≤ zid * zoneLbas z / zoneLbas z := by
          refine Nat.div_le_div_right ((Nat.mod_le _ _).trans ?_)
          exact Nat.mul_le_mul_right _ (Nat.mod_le _ _)
      _ ≤ zid := Nat.div_le_of_le_mul (by rw [Nat.mul_comm])
  unfold lbaToZone
  rw [u32_of_lt (by omega)]
  omega

/-- `slba` is a block of an existing zone. -/
structure OnZone (n : Nat) (z : ZnsFtl τ) (slba : Nat) : Prop where
  zone : lbaToZone z slba < n
  lt : slba < 2 ^ 63

theorem Counters.znsZmgmtSend (h : Counters n z) (hadv : AllowsFlush mayAdvance z.zp) {junk : Nat}
    {cmd : ZoneMgmtSend} {nsecsStart : Nat} (hz : cmd.selectAll = false → OnZone n z cmd.slba) :
    Partial (znsZmgmtSend z junk cmd nsecsStart) fun r => Steps mayAdvance leak z r.2 := by
  unfold Nvmev.znsZmgmtSend
  split
  · refine Partial.bind (Q := Steps mayAdvance leak z) ?_ fun z' h' => .ret h'
    refine Partial.foldlM Relation.ReflTransGen.refl fun z' h' zid hzid => ?_
    have hc := h.steps h'
    have hlt : zid < n := by simpa [h.nrZones] using hzid
    refine Partial.bind (Q := fun r => Steps mayAdvance leak z' r.2)
      (hc.zmgmtSend (by rwa [(Steps.params_eq h').2]) ((u32_lt _).trans (by decide))
        (lbaToZone_zoneToSlba_lt hlt h.small) _ _) fun r hr => ?_
    exact .ret (Relation.ReflTransGen.trans h' hr)
  · rename_i hsel
    exact Partial.bind (Q := fun r => Steps mayAdvance leak z r.2)
      (h.zmgmtSend hadv (hz (by simpa using hsel)).lt (hz (by simpa using hsel)).zone _ _)
      fun r hr => .ret hr

/-! ## Writes -/

/-- `__increase_write_ptr` on an open zone. It does not give a ZRWA resource back. -/
theorem Counters.increaseWritePtr (h : Counters n z) (hz : zid < n)
    (hopen : (z.zoneDescs zid).state.isOpen = true) {k : Nat}
    (hwp : mayAdvance (z.zoneDescs zid) (u64 ((z.zoneDescs zid).wp + u32 k)))
    (hleak : (z.zoneDescs zid).zrwav = true →
      u64 ((z.zoneDescs zid).wp + u32 k) = u64 (zoneToSlba z zid + (z.zoneDescs zid).zoneCapacity) →
      leak) :
    Step mayAdvance leak z (increaseWritePtr z zid k) := by
  have hact := isActive_of_isOpen hopen
  unfold Nvmev.increaseWritePtr
  simp only []
  split
  · rename_i hend
    refine h.deactivate (d := { z.zoneDescs zid with
      wp := u64 ((z.zoneDescs zid).wp + u32 k), state := .full }) hz hact (.fill hopen hwp) rfl rfl
      (by simp) (by simp) (by simp [hopen]) ?_ rfl rfl
    by_cases hv : (z.zoneDescs zid).zrwav = true
    · exact .inr ⟨hleak hv hend, by simp⟩
    · exact .inl (by simp [hv])
  · exact h.stay (d := { z.zoneDescs zid with wp := u64 ((z.zoneDescs zid).wp + u32 k) }) hz
      (.advance hopen hwp) rfl rfl rfl rfl rfl rfl rfl rfl

/-- The state after an allocation of `bytes` bytes. -/
def allocated (z : ZnsFtl τ) (ref : BufferRef) (bytes : Nat) : ZnsFtl τ :=
  z.setBuffer { z.buffer ref with remaining := (z.buffer ref).remaining - bytes } ref

/-- The address of a write to a plain zone. -/
def plainSlba (z : ZnsFtl τ) (cmd : RwCommand) : Nat :=
  if cmd.opcode = .zoneAppend then (z.zoneDescs (lbaToZone z cmd.slba)).wp else cmd.slba

@[simp] theorem setBuffer_self (ref : BufferRef) : z.setBuffer (z.buffer ref) ref = z := by
  cases ref <;> simp [ZnsFtl.setBuffer, ZnsFtl.buffer]

/-- What `__zns_write` leaves in `o`. -/
inductive PlainOutcome (B : PerfModel τ) (z : ZnsFtl τ) (req : RwRequest) (o : IoOutcome (ZnsFtl τ)) :
    Prop where
  | refused
    (room : (z.buffer (zoneBufferRef z (lbaToZone z req.cmd.slba))).remaining < req.cmd.nrLbas * 512)
    (accepted : o.accepted = false) (ftl : o.ftl = z) (ops : o.ops = [])
  | failed (status : Nat)
    (room : req.cmd.nrLbas * 512 ≤
      (z.buffer (zoneBufferRef z (lbaToZone z req.cmd.slba))).remaining)
    (checks : writeChecks
      (allocated z (zoneBufferRef z (lbaToZone z req.cmd.slba)) (req.cmd.nrLbas * 512))
      (lbaToZone z req.cmd.slba) (plainSlba z req.cmd) req.cmd.nrLbas = (some status, o.ftl))
    (accepted : o.accepted = true) (status_eq : o.ret.status = status) (ops : o.ops = [])
  | done (z₁ : ZnsFtl τ) (s : FlushState τ) (stime : Nat) (perf : τ)
    (room : req.cmd.nrLbas * 512 ≤
      (z.buffer (zoneBufferRef z (lbaToZone z req.cmd.slba))).remaining)
    (checks : writeChecks
      (allocated z (zoneBufferRef z (lbaToZone z req.cmd.slba)) (req.cmd.nrLbas * 512))
      (lbaToZone z req.cmd.slba) (plainSlba z req.cmd) req.cmd.nrLbas = (none, z₁))
    (accepted : o.accepted = true) (status_eq : o.ret.status = Sc.success)
    (cmd_eq : o.cmd.slba = plainSlba z req.cmd)
    (loop : s = writeLoop (increaseWritePtr z₁ (lbaToZone z req.cmd.slba) req.cmd.nrLbas) B req.sqId
      stime (zoneToElpn z (lbaToZone z req.cmd.slba)) (zoneBufferRef z (lbaToZone z req.cmd.slba))
      (lbaToLpn z (u64 (plainSlba z req.cmd + req.cmd.nrLbas - 1)))
      (lbaToLpn z (u64 (plainSlba z req.cmd + req.cmd.nrLbas - 1)) + 1 -
        lbaToLpn z (plainSlba z req.cmd)) (lbaToLpn z (plainSlba z req.cmd))
      { perf, nsecsLatest := stime, ops := [] })
    (start : B.advanceWriteBuffer z₁.ssd.perf req.nsecsStart (req.cmd.nrLbas * 512) = (stime, perf))
    (ftl : o.ftl = (increaseWritePtr z₁ (lbaToZone z req.cmd.slba) req.cmd.nrLbas).setPerf s.perf)
    (ops : o.ops = s.ops)

@[simp] theorem increaseWritePtr_ssd (k : Nat) : (increaseWritePtr z zid k).ssd = z.ssd := by
  unfold Nvmev.increaseWritePtr; simp only []; split <;> rfl

theorem znsWritePlain_outcome (B : PerfModel τ) {req : RwRequest} {o : IoOutcome (ZnsFtl τ)}
    (h : znsWritePlain B z req = .ok o) : PlainOutcome B z req o := by
  have hn := nrLbas_le req.cmd
  unfold znsWritePlain at h
  simp only [] at h
  obtain ⟨⟨got, buf⟩, ha, h⟩ := bind_ok.mp h
  rw [lbaToByte_of_lt (by omega)] at ha h
  rcases bufferAllocate_cases (by omega) ha with ⟨rfl, hroom, rfl⟩ | ⟨rfl, hroom, rfl⟩
  · rw [if_neg (Nat.lt_irrefl _)] at h
    split at h
    · rename_i status z₁ hck
      cases h
      exact .failed status hroom hck rfl rfl rfl
    · rename_i z₁ hck
      cases h
      refine .done z₁ _ _ _ hroom hck rfl rfl rfl rfl ?_ rfl rfl
      rw [increaseWritePtr_ssd]
  · have hpos := nrLbas_pos req.cmd
    rw [if_pos (by simp only; omega)] at h
    cases h
    exact .refused hroom rfl (setBuffer_self _) rfl

variable (z zid) in
/-- The state after the checks of a plain write: the same, or with the resources of an implicit open. -/
theorem writeChecks_cases (slba nrLba : Nat) :
    (Nvmev.writeChecks z zid slba nrLba).2 = z ∨
      (Nvmev.writeChecks z zid slba nrLba).2 = (openImplicitly z zid).2 ∨
      (Nvmev.writeChecks z zid slba nrLba).2 =
        (openImplicitly (acquireZoneResource z .activeZone).2 zid).2 := by
  unfold Nvmev.writeChecks
  split
  · exact .inl rfl
  split
  · exact .inl rfl
  split
  · exact .inl rfl
  unfold Nvmev.writeSwitch
  split
  · split
    · exact .inl rfl
    split
    · exact .inl rfl
    split
    · exact .inl rfl
    exact .inr (.inr rfl)
  · exact .inr (.inl rfl)
  all_goals exact .inl rfl

/-- The zone takes no write at `slba`. -/
def Stuck (d : ZoneDescriptor) (slba : Nat) : Prop :=
  (d.state = .empty ∧ slba ≠ d.zslba) ∨ d.state = .full ∨ d.state = .readOnly ∨ d.state = .offline

variable (mayAdvance leak) in
/-- What the `switch` of a plain write leaves: nothing with an error, or an open zone. -/
theorem Counters.writeSwitch (h : Counters n z) (hz : zid < n) (slba : Nat) :
    (∃ status, status ≠ Sc.success ∧ Stuck (z.zoneDescs zid) slba ∧
        writeSwitch z zid slba = (some status, z)) ∨
      ∃ z₁ st, writeSwitch z zid slba = (none, z₁) ∧ Steps mayAdvance leak z z₁ ∧
        z₁.ssd = z.ssd ∧ z₁.zp = z.zp ∧ (z.zoneDescs zid).state ≠ .full ∧ st.isOpen = true ∧
        z₁.zoneDescs = update z.zoneDescs zid { z.zoneDescs zid with state := st } := by
  cases hs : (z.zoneDescs zid).state with
  | empty =>
    by_cases hslba : slba ≠ (z.zoneDescs zid).zslba
    · exact .inl ⟨Sc.znsInvalidWrite, by decide, .inl ⟨hs, hslba⟩,
        by simp [Nvmev.writeSwitch, hs, hslba]⟩
    have hla := not_full_of_lt (h.active_lt hz (by rw [hs]; rfl)) h.activeTotal
    have hlo := not_full_of_lt (h.opened_lt hz (by rw [hs]; rfl)) h.openTotal
    have hd : { z.zoneDescs zid with zrwav := false } = z.zoneDescs zid := by
      rw [← h.empty zid hz hs]
    obtain ⟨z₁, he, hssd, hzp, hds, hi⟩ := h.openEmpty mayAdvance leak hz hs .openedImpl rfl false z
      rfl rfl (by simp [hd]) rfl rfl rfl rfl h.zrwaLe rfl
    refine .inr ⟨changeZoneState z₁ zid .openedImpl, .openedImpl, ?_, .single hi, hssd, hzp, nofun, rfl,
      ?_⟩
    · rw [not_not] at hslba
      simp [Nvmev.writeSwitch, hs, hslba, hla, hlo, openImplicitly, he]
    · simp [hds]
  | closed =>
    obtain ⟨z₁, he, hssd, hzp, hds, hi⟩ := h.reopen mayAdvance leak hz hs .openedImpl rfl
    refine .inr ⟨changeZoneState z₁ zid .openedImpl, .openedImpl, ?_, .single hi, hssd, hzp, nofun, rfl,
      ?_⟩
    · simp [Nvmev.writeSwitch, hs, openImplicitly, he]
    · simp [hds]
  | openedImpl =>
    refine .inr ⟨z, .openedImpl, by simp [Nvmev.writeSwitch, hs], .refl, rfl, rfl, nofun, rfl, ?_⟩
    rw [← hs]
    exact (update_eq_self _ _).symm
  | openedExpl =>
    refine .inr ⟨z, .openedExpl, by simp [Nvmev.writeSwitch, hs], .refl, rfl, rfl, nofun, rfl, ?_⟩
    rw [← hs]
    exact (update_eq_self _ _).symm
  | full =>
    exact .inl ⟨Sc.znsErrFull, by decide, .inr (.inl hs), by simp [Nvmev.writeSwitch, hs]⟩
  | readOnly =>
    exact .inl ⟨Sc.znsErrReadOnly, by decide, .inr (.inr (.inl hs)), by simp [Nvmev.writeSwitch, hs]⟩
  | offline =>
    exact .inl ⟨Sc.znsErrOffline, by decide, .inr (.inr (.inr hs)), by simp [Nvmev.writeSwitch, hs]⟩

/-- The checks of a plain write that goes on. -/
structure Passed (mayAdvance : ZoneDescriptor → Nat → Prop) (leak : Prop) (z z₁ : ZnsFtl τ)
    (zid slba nrLba : Nat) : Prop where
  steps : Steps mayAdvance leak z z₁
  ssd : z₁.ssd = z.ssd
  zp : z₁.zp = z.zp
  atWp : slba = (z.zoneDescs zid).wp
  boundary : checkBoundaryError z slba nrLba = true
  unit : lbaToByte nrLba % z.ssd.sp.writeUnitSize = 0
  notFull : (z.zoneDescs zid).state ≠ .full
  descs : ∃ st, st.isOpen = true ∧
    z₁.zoneDescs = update z.zoneDescs zid { z.zoneDescs zid with state := st }

variable (mayAdvance leak) in
theorem Counters.writeChecks (h : Counters n z) (hz : zid < n) (slba nrLba : Nat) :
    (∃ status, status ≠ Sc.success ∧
        ¬ (lbaToByte nrLba % z.ssd.sp.writeUnitSize = 0 ∧ checkBoundaryError z slba nrLba = true ∧
          slba = (z.zoneDescs zid).wp ∧ ¬ Stuck (z.zoneDescs zid) slba) ∧
        writeChecks z zid slba nrLba = (some status, z)) ∨
      ∃ z₁, writeChecks z zid slba nrLba = (none, z₁) ∧
        Passed mayAdvance leak z z₁ zid slba nrLba := by
  unfold Nvmev.writeChecks
  split
  · rename_i hunit
    exact .inl ⟨_, by decide, fun hc => hunit hc.1, rfl⟩
  rename_i hunit
  split
  · rename_i hb
    exact .inl ⟨_, by decide, fun hc => by rw [hb] at hc; exact absurd hc.2.1 (by simp), rfl⟩
  rename_i hb
  split
  · rename_i hwp
    exact .inl ⟨_, by decide, fun hc => hwp hc.2.2.1, rfl⟩
  rename_i hwp
  obtain ⟨status, hne, hstuck, he⟩ | ⟨z₁, st, he, hsteps, hssd, hzp, hfull, hst, hds⟩ :=
    h.writeSwitch mayAdvance leak hz slba
  · exact .inl ⟨status, hne, fun hc => hc.2.2.2 hstuck, he⟩
  · exact .inr ⟨z₁, he, hsteps, hssd, hzp, by simpa using hwp, by simpa using hb, by simpa using hunit,
      hfull, st, hst, hds⟩

/-- The write pointers that a plain write of `nrLba` blocks sets. -/
def plainAdvance (nrLba : Nat) (d : ZoneDescriptor) (wp : Nat) : Prop :=
  d.zrwav = false ∧ wp = u64 (d.wp + u32 nrLba)

@[simp] theorem allocated_zoneDescs (ref : BufferRef) (bytes : Nat) :
    (allocated z ref bytes).zoneDescs = z.zoneDescs := by simp [allocated]

/-- A plain write that succeeded. `st` is the state in which it found or put the zone. -/
structure PlainDone (z : ZnsFtl τ) (req : RwRequest) (o : IoOutcome (ZnsFtl τ)) (zid : Nat)
    (st : ZoneState) : Prop where
  accepted : o.accepted = true
  status_eq : o.ret.status = Sc.success
  cmd_eq : o.cmd.slba = (z.zoneDescs zid).wp
  slba_eq : plainSlba z req.cmd = (z.zoneDescs zid).wp
  boundary : checkBoundaryError z (z.zoneDescs zid).wp req.cmd.nrLbas = true
  unit : lbaToByte req.cmd.nrLbas % z.ssd.sp.writeUnitSize = 0
  notFull : (z.zoneDescs zid).state ≠ .full
  opened : st.isOpen = true
  descs : o.ftl.zoneDescs = update z.zoneDescs zid
    { z.zoneDescs zid with
      wp := u64 ((z.zoneDescs zid).wp + u32 req.cmd.nrLbas)
      state := if u64 ((z.zoneDescs zid).wp + u32 req.cmd.nrLbas) =
        u64 (zoneToSlba z zid + (z.zoneDescs zid).zoneCapacity) then .full else st }

theorem increaseWritePtr_zoneDescs (k : Nat) : (increaseWritePtr z zid k).zoneDescs =
    update z.zoneDescs zid { z.zoneDescs zid with
      wp := u64 ((z.zoneDescs zid).wp + u32 k)
      state := if u64 ((z.zoneDescs zid).wp + u32 k) =
        u64 (zoneToSlba z zid + (z.zoneDescs zid).zoneCapacity) then .full
        else (z.zoneDescs zid).state } := by
  have hslba (d : ZoneDescriptor) : zoneToSlba (z.setDesc zid d) zid = zoneToSlba z zid := rfl
  unfold Nvmev.increaseWritePtr
  simp only [hslba]
  split
  · simp
  · rfl

theorem setBuffer_checkBoundaryError (b : Buffer) (ref : BufferRef) (slba nrLba : Nat) :
    checkBoundaryError (z.setBuffer b ref) slba nrLba = checkBoundaryError z slba nrLba := by
  cases ref <;> rfl

/-- A plain write either succeeds, or leaves the zones alone. -/
theorem Counters.plainWrite_cases (B : PerfModel τ) (h : Counters n z) {req : RwRequest}
    (hz : lbaToZone z req.cmd.slba = zid) (hzn : zid < n) : Partial (znsWritePlain B z req) fun o =>
      (¬ (o.accepted = true ∧ o.ret.status = Sc.success) ∧ o.ftl.zoneDescs = z.zoneDescs) ∨
      ∃ st, PlainDone z req o zid st := by
  intro o ho
  have hcnt (b : Buffer) (ref : BufferRef) : Counters n (z.setBuffer b ref) :=
    h.same (by simp) (by simp) (by simp)
  cases znsWritePlain_outcome B ho with
  | refused _ hacc hftl _ => exact .inl ⟨by simp [hacc], by rw [hftl]⟩
  | failed status _ hck _ hst _ =>
    rw [hz] at hck
    obtain ⟨status', hne, -, he⟩ | ⟨z₁, he, -⟩ :=
      (hcnt _ _).writeChecks (fun _ _ => True) True hzn (plainSlba z req.cmd) req.cmd.nrLbas
    · rw [allocated, he] at hck
      obtain ⟨hstatus, hftl⟩ := Prod.mk.inj hck
      cases hstatus
      exact .inl ⟨fun hc => hne (hst.symm.trans hc.2), by rw [← hftl, setBuffer_zoneDescs]⟩
    · rw [allocated, he] at hck
      cases (Prod.mk.inj hck).1
  | done z₁ s _ _ _ hck hacc hst hcmd _ _ hftl _ =>
    rw [hz] at hck hftl
    obtain ⟨_, -, -, he⟩ | ⟨z₂, he, hp⟩ :=
      (hcnt _ _).writeChecks (fun _ _ => True) True hzn (plainSlba z req.cmd) req.cmd.nrLbas
    · rw [allocated, he] at hck
      cases (Prod.mk.inj hck).1
    · rw [allocated, he] at hck
      obtain rfl : z₂ = z₁ := (Prod.mk.inj hck).2
      obtain ⟨st, hst', hds⟩ := hp.descs
      have hwp : plainSlba z req.cmd = (z.zoneDescs zid).wp := by simpa using hp.atWp
      have hbnd := hp.boundary
      rw [setBuffer_checkBoundaryError, hwp] at hbnd
      refine .inr ⟨st, hacc, hst, hcmd.trans hwp, hwp, hbnd, by simpa using hp.unit,
        by simpa using hp.notFull, hst', ?_⟩
      rw [hftl]
      change (Nvmev.increaseWritePtr z₂ zid req.cmd.nrLbas).zoneDescs = _
      have hend : zoneToSlba z₂ zid = zoneToSlba z zid := by
        unfold zoneToSlba zoneLbas
        rw [hp.ssd, hp.zp, setBuffer_sp, setBuffer_zp]
      rw [increaseWritePtr_zoneDescs, hds, hend]
      simp

/-- A write to a plain zone: the allocation in its buffer, and steps. -/
theorem Counters.znsWritePlain (B : PerfModel τ) (h : Counters n z) {req : RwRequest}
    (hz : lbaToZone z req.cmd.slba < n)
    (hv : (z.zoneDescs (lbaToZone z req.cmd.slba)).zrwav = false) :
    Partial (znsWritePlain B z req) fun o => ∃ buf,
      Steps (plainAdvance req.cmd.nrLbas) False
        (z.setBuffer buf (zoneBufferRef z (lbaToZone z req.cmd.slba))) o.ftl := by
  intro o ho
  have hcnt (b : Buffer) (ref : BufferRef) : Counters n (z.setBuffer b ref) :=
    h.same (by simp) (by simp) (by simp)
  cases znsWritePlain_outcome B ho with
  | refused _ _ hftl _ =>
    refine ⟨z.buffer (zoneBufferRef z (lbaToZone z req.cmd.slba)), ?_⟩
    rw [setBuffer_self, hftl]
    exact .refl
  | failed status _ hck _ _ _ =>
    obtain ⟨_, -, -, he⟩ | ⟨z₁, he, -⟩ :=
      (hcnt _ _).writeChecks (plainAdvance req.cmd.nrLbas) False hz (plainSlba z req.cmd) req.cmd.nrLbas
    · rw [allocated, he] at hck
      rw [← (Prod.mk.inj hck).2]
      exact ⟨_, .refl⟩
    · rw [allocated, he] at hck
      cases (Prod.mk.inj hck).1
  | done z₁ s _ _ _ hck _ _ _ _ _ hftl _ =>
    obtain ⟨_, -, -, he⟩ | ⟨z₂, he, hp⟩ :=
      (hcnt _ _).writeChecks (plainAdvance req.cmd.nrLbas) False hz (plainSlba z req.cmd) req.cmd.nrLbas
    · rw [allocated, he] at hck
      cases (Prod.mk.inj hck).1
    · rw [allocated, he] at hck
      obtain rfl : z₂ = z₁ := (Prod.mk.inj hck).2
      obtain ⟨st, hst, hds⟩ := hp.descs
      have hd : z₂.zoneDescs (lbaToZone z req.cmd.slba) =
          { z.zoneDescs (lbaToZone z req.cmd.slba) with state := st } := by
        rw [hds, update_self, setBuffer_zoneDescs]
      have hplain : (z₂.zoneDescs (lbaToZone z req.cmd.slba)).zrwav = false := by
        rw [hd]
        exact hv
      have hadv : Step (plainAdvance req.cmd.nrLbas) False z₂
          (Nvmev.increaseWritePtr z₂ (lbaToZone z req.cmd.slba) req.cmd.nrLbas) :=
        ((hcnt _ _).steps hp.steps).increaseWritePtr hz (by rw [hd]; exact hst) ⟨hplain, rfl⟩
          fun hv' => by rw [hplain] at hv'; cases hv'
      have hperf : Step (plainAdvance req.cmd.nrLbas) False
          (Nvmev.increaseWritePtr z₂ (lbaToZone z req.cmd.slba) req.cmd.nrLbas) o.ftl := by
        rw [hftl]
        exact .same rfl rfl rfl rfl rfl
      exact ⟨_, Relation.ReflTransGen.tail (Relation.ReflTransGen.tail hp.steps hadv) hperf⟩

/-! ### Zones with a random write area -/

theorem zrwaBufferAllocate_eq {size : Nat} : Partial (zrwaBufferAllocate z zid size) fun r =>
    ∃ buf, bufferAllocate (z.zrwaBuffer zid) size = .ok (r.1, buf) ∧
      r.2 = z.setBuffer buf (.zrwaBuffer zid) := by
  unfold zrwaBufferAllocate
  refine Partial.bind .ensure fun _ _ => ?_
  intro r hr
  obtain ⟨⟨got, buf⟩, he, hr⟩ := bind_ok.mp hr
  cases hr
  exact ⟨buf, he, rfl⟩

/-- The conditions of `__zns_write_zrwa` on a write that goes on. -/
structure InWindow (z : ZnsFtl τ) (zid slba nrLba : Nat) : Prop where
  active : (z.zoneDescs zid).state.isActive = true
  unit : lbaToByte nrLba % z.ssd.sp.writeUnitSize = 0
  boundary : checkBoundaryError z slba nrLba = true
  ge : (z.zoneDescs zid).wp ≤ slba
  le : u64 (slba + nrLba - 1) ≤ sub64 (u64 ((z.zoneDescs zid).wp + u32 (2 * z.zp.lbasPerZrwa))) 1

instance (z : ZnsFtl τ) (zid slba nrLba : Nat) : Decidable (InWindow z zid slba nrLba) :=
  decidable_of_iff
    ((z.zoneDescs zid).state.isActive = true ∧ lbaToByte nrLba % z.ssd.sp.writeUnitSize = 0 ∧
      checkBoundaryError z slba nrLba = true ∧ (z.zoneDescs zid).wp ≤ slba ∧
      u64 (slba + nrLba - 1) ≤ sub64 (u64 ((z.zoneDescs zid).wp + u32 (2 * z.zp.lbasPerZrwa))) 1)
    ⟨fun ⟨h1, h2, h3, h4, h5⟩ => ⟨h1, h2, h3, h4, h5⟩, fun ⟨h1, h2, h3, h4, h5⟩ => ⟨h1, h2, h3, h4, h5⟩⟩

variable (mayAdvance leak) in
/-- What the checks and the `switch` of a ZRWA write leave: nothing with an error, or an open zone. -/
theorem Counters.zrwaChecks (h : Counters n z) (hz : zid < n) (hv : (z.zoneDescs zid).zrwav = true)
    (slba nrLba : Nat) : Partial (zrwaChecks z zid slba nrLba) fun r =>
      (∃ status, status ≠ Sc.success ∧ r = (some status, z)) ∨
      (r.1 = none ∧ InWindow z zid slba nrLba ∧ Steps mayAdvance leak z r.2 ∧
        (r.2.zrwaBuffer zid).remaining ≤ (z.zrwaBuffer zid).remaining ∧ ∃ st, st.isOpen = true ∧
        r.2.zoneDescs = update z.zoneDescs zid { z.zoneDescs zid with state := st }) := by
  unfold Nvmev.zrwaChecks
  simp only []
  split
  · exact .ret (.inl ⟨_, by decide, rfl⟩)
  rename_i hunit
  split
  · exact .ret (.inl ⟨_, by decide, rfl⟩)
  rename_i hb
  split
  · exact .ret (.inl ⟨_, by decide, rfl⟩)
  rename_i hwin
  have hin (hact : (z.zoneDescs zid).state.isActive = true) : InWindow z zid slba nrLba :=
    ⟨hact, by simpa using hunit, by simpa using hb, by omega, by omega⟩
  split <;> rename_i hs
  · obtain ⟨z₁, he, -, -, hds, hi⟩ := h.reopen mayAdvance leak hz hs .openedImpl rfl
    have hbuf : z₁.zrwaBuffer = z.zrwaBuffer := by
      simpa [he] using acquire_zrwaBuffer z .openZone
    simp only [openZrwa, he]
    refine Partial.bind zrwaBufferAllocate_eq fun r hr => ?_
    obtain ⟨buf, hbuf', hr⟩ := hr
    refine Partial.bind .ensure fun _ _ =>
      .ret (.inr ⟨rfl, hin (by rw [hs]; rfl), ?_, ?_, .openedImpl, rfl, ?_⟩)
    · rw [hr]
      exact Relation.ReflTransGen.tail (.single hi) (.same rfl rfl rfl rfl rfl)
    · have hle := bufferAllocate_remaining_le hbuf'
      rw [hbuf] at hle
      simpa [hr, ZnsFtl.setBuffer, changeZoneState, ZnsFtl.setDesc] using hle
    · simp [hr, hds]
  · rw [h.empty zid hz hs] at hv
    cases hv
  · refine .ret (.inr ⟨rfl, hin (by rw [hs]; rfl), .refl, Nat.le_refl _, .openedImpl, rfl, ?_⟩)
    rw [← hs]
    exact (update_eq_self _ _).symm
  · refine .ret (.inr ⟨rfl, hin (by rw [hs]; rfl), .refl, Nat.le_refl _, .openedExpl, rfl, ?_⟩)
    rw [← hs]
    exact (update_eq_self _ _).symm
  · exact .ret (.inl ⟨_, by decide, rfl⟩)
  · exact .ret (.inl ⟨_, by decide, rfl⟩)
  · exact .ret (.inl ⟨_, by decide, rfl⟩)

/-- How far a flush goes depends on the configuration and the write pointer only. -/
theorem nrLbasFlush_congr (hsp : z'.ssd.sp = z.ssd.sp) (hzp : z'.zp = z.zp) (prevWp elba : Nat) :
    nrLbasFlush z' zid prevWp elba = nrLbasFlush z zid prevWp elba := by
  unfold nrLbasFlush zoneToElba zoneToSlba zoneLbas
  rw [hsp, hzp]

/-- An implicit flush of `flush` blocks moves the write pointer. -/
theorem Counters.flushImplicit (h : Counters n z) (hz : zid < n)
    (hopen : (z.zoneDescs zid).state.isOpen = true) {flush : Nat}
    (hwp : 0 < flush → mayAdvance (z.zoneDescs zid) (u64 ((z.zoneDescs zid).wp + u32 flush)))
    (hleak : lbaToByte flush ≤ (z.zrwaBuffer zid).remaining → u64 ((z.zoneDescs zid).wp + u32 flush) =
      u64 (zoneToSlba z zid + (z.zoneDescs zid).zoneCapacity) → leak) :
    Partial (flushImplicit z zid flush) fun r => Steps mayAdvance leak z r.2 := by
  unfold Nvmev.flushImplicit
  split
  · rename_i hpos
    refine Partial.bind zrwaBufferAllocate_eq fun r hr => .ret ?_
    obtain ⟨buf, hbuf, hr⟩ := hr
    have hsame : Step mayAdvance leak z (z.setBuffer buf (.zrwaBuffer zid)) :=
      .same rfl rfl rfl rfl rfl
    rw [hr]
    split
    · exact .single hsame
    · rename_i hgot
      refine Relation.ReflTransGen.tail (.single hsame) ?_
      exact (h.step hsame).increaseWritePtr hz hopen (hwp hpos) fun _ =>
        hleak (bufferAllocate_le_remaining hbuf hgot)
  · exact .ret .refl

variable (mayAdvance leak) in
/-- A write to a ZRWA zone, from the write pointers that it may set and the end of the zone that it
may reach. -/
theorem Counters.znsWriteZrwa (B : PerfModel τ) (h : Counters n z) {req : RwRequest}
    (hz : lbaToZone z req.cmd.slba = zid) (hzn : zid < n) (hv : (z.zoneDescs zid).zrwav = true)
    (hadv : InWindow z zid req.cmd.slba req.cmd.nrLbas → ∀ flush st, 0 < flush →
      nrLbasFlush z zid (z.zoneDescs zid).wp (u64 (req.cmd.slba + req.cmd.nrLbas - 1)) = .ok flush →
      mayAdvance { z.zoneDescs zid with state := st } (u64 ((z.zoneDescs zid).wp + u32 flush)))
    (hleak : InWindow z zid req.cmd.slba req.cmd.nrLbas → ∀ flush,
      nrLbasFlush z zid (z.zoneDescs zid).wp (u64 (req.cmd.slba + req.cmd.nrLbas - 1)) = .ok flush →
      lbaToByte flush ≤ (z.zrwaBuffer zid).remaining →
      u64 ((z.zoneDescs zid).wp + u32 flush) =
        u64 (zoneToSlba z zid + (z.zoneDescs zid).zoneCapacity) → leak) :
    Partial (znsWriteZrwa B z req) fun o => Steps mayAdvance leak z o.ftl := by
  unfold Nvmev.znsWriteZrwa
  simp only [hz]
  refine Partial.bind (Q := fun r => (∃ status, status ≠ Sc.success ∧ r = (some status, z)) ∨
      (r.1 = none ∧ InWindow z zid req.cmd.slba req.cmd.nrLbas ∧ Steps mayAdvance leak z r.2 ∧
        (r.2.zrwaBuffer zid).remaining ≤ (z.zrwaBuffer zid).remaining ∧ ∃ st, st.isOpen = true ∧
          r.2.zoneDescs = update z.zoneDescs zid { z.zoneDescs zid with state := st }))
    (h.zrwaChecks mayAdvance leak hzn hv _ _) fun r hr => ?_
  obtain ⟨status, -, rfl⟩ | ⟨hnone, hin, hsteps, hrem, st, hst, hds⟩ := hr
  · exact .ret .refl
  obtain ⟨r₁, z₁⟩ := r
  obtain rfl : r₁ = none := hnone
  obtain ⟨hsp, hzp⟩ := Steps.params_eq hsteps
  have hd : z₁.zoneDescs zid = { z.zoneDescs zid with state := st } := by rw [hds, update_self]
  have hslba : zoneToSlba z₁ zid = zoneToSlba z zid := by
    unfold zoneToSlba zoneLbas
    rw [hsp, hzp]
  simp only []
  rw [nrLbasFlush_congr hsp hzp]
  refine Partial.bind (Q := fun flush => nrLbasFlush z zid (z.zoneDescs zid).wp
    (u64 (req.cmd.slba + req.cmd.nrLbas - 1)) = .ok flush) (fun _ he => he) fun flush hflush => ?_
  refine Partial.bind (Q := fun r => Steps mayAdvance leak z₁ r.2)
    ((h.steps hsteps).flushImplicit hzn (by rw [hd]; exact hst) ?_ ?_) fun r hr => ?_
  · intro hpos
    rw [hd]
    exact hadv hin flush st hpos hflush
  · rw [hd, hslba]
    exact fun hroom => hleak hin flush hflush (hroom.trans hrem)
  have hall := Relation.ReflTransGen.trans hsteps hr
  obtain ⟨refused, z₂⟩ := r
  simp only []
  split
  · exact .ret hall
  · exact .ret (Relation.ReflTransGen.tail hall (.same rfl rfl rfl rfl rfl))

end Zns

end Nvmev
