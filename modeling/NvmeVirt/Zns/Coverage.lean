import NvmeVirt.Lib.Spans
import NvmeVirt.Zns.StateMachine
import NvmeVirt.Zns.Zrwa

/-!
# The blocks that a zone has been written with

A run with a record of what succeeded: `Zns.History` has, for each zone, the blocks of the write and
zone append commands that succeeded since its last reset.

* `sequential_write_coverage`: in a zone without a random write area they follow each other from the
  start of the zone to the write pointer, and no command that succeeds leaves its zone.
-/

namespace Nvmev

open CInt Function Tally Outcome Spans

namespace Zns

variable {τ : Type} {sp : SsdParams} {zp : ZnsParams} {z z' : ZnsFtl τ} {zid i : Nat}

/-- The command resets zone `i`. -/
def resetsZone (z : ZnsFtl τ) : ZnsRequest → Nat → Prop
  | .rw _, _ => False
  | .zoneMgmtSend cmd _ _, i =>
    cmd.zsa = .reset ∧ (cmd.selectAll = true ∨ lbaToZone z cmd.slba = i)

/-- The command opens zone `i` with the ZRWA option. -/
def opensWithZrwa (z : ZnsFtl τ) : ZnsRequest → Nat → Prop
  | .rw _, _ => False
  | .zoneMgmtSend cmd _ _, i =>
    cmd.zsa = .openZone ∧ cmd.zsaso = true ∧ (cmd.selectAll = true ∨ lbaToZone z cmd.slba = i)

instance (z : ZnsFtl τ) (i : Nat) : ∀ req, Decidable (resetsZone z req i)
  | .rw _ => .isFalse id
  | .zoneMgmtSend _ _ _ => inferInstanceAs (Decidable (_ ∧ _))

instance (z : ZnsFtl τ) (i : Nat) : ∀ req, Decidable (opensWithZrwa z req i)
  | .rw _ => .isFalse id
  | .zoneMgmtSend _ _ _ => inferInstanceAs (Decidable (_ ∧ _))

/-- The blocks that a write or zone append has written to zone `i`, if it succeeded there. A zone
append has written its address into the command. -/
def succeededOn (B : PerfModel τ) (z : ZnsFtl τ) (i : Nat) : ZnsRequest → List Span
  | .rw req =>
    if req.cmd.opcode = .write ∨ req.cmd.opcode = .zoneAppend then
      match znsWrite B z req with
      | .ok o =>
        if o.accepted = true ∧ o.ret.status = Sc.success ∧ lbaToZone z req.cmd.slba = i then
          [⟨o.cmd.slba, req.cmd.nrLbas⟩]
        else []
      | .error _ => []
    else []
  | .zoneMgmtSend _ _ _ => []

/-- The device, the blocks written to each zone since its last reset, and whether it was opened with the
ZRWA option since then. -/
structure History (τ : Type) where
  dev : ZnsDevice τ
  written : Nat → List Span := fun _ => []
  zrwaOpened : Nat → Prop := fun _ => False

/-- One event, and the record of a command. -/
def History.step (B : PerfModel τ) (s : History τ) (event : ZnsEvent) : Except Bug (History τ) := do
  let dev ← s.dev.step B event
  match event with
  | .complete _ => pure { s with dev }
  | .command req => pure {
      dev
      written := fun i =>
        if resetsZone s.dev.ftl req i then [] else s.written i ++ succeededOn B s.dev.ftl i req
      zrwaOpened := fun i =>
        ¬ resetsZone s.dev.ftl req i ∧ (s.zrwaOpened i ∨ opensWithZrwa s.dev.ftl req i) }

/-! ## The zones -/

/-- A zone that ends below block 2^32. `zone_to_slba` multiplies in 32 bits, so only the end of such a
zone is found. -/
structure Low (zp : ZnsParams) (i : Nat) : Prop where
  lt : i < zp.nrZones
  fits : i * (zp.zoneSize / 512) + zp.zoneSize / 512 < 2 ^ 32

theorem Layout.low (hl : Layout sp zp) (hi : i < zp.nrZones) : Low zp i := ⟨hi, hl.mul_lt hi⟩

/-- The zones of a namespace that is not at the end of its life: no zone is read-only or offline, and
the write pointer of a plain zone that is not full is inside it. -/
structure Live (sp : SsdParams) (zp : ZnsParams) (z : ZnsFtl τ) : Prop where
  counters : Counters zp.nrZones z
  placed : Placed sp zp z
  alive : ∀ i < zp.nrZones, (z.zoneDescs i).state ≠ .readOnly ∧ (z.zoneDescs i).state ≠ .offline
  inside : ∀ i, Low zp i → (z.zoneDescs i).zrwav = false →
    (z.zoneDescs i).zslba ≤ (z.zoneDescs i).wp ∧ ((z.zoneDescs i).state ≠ .full →
      (z.zoneDescs i).wp < (z.zoneDescs i).zslba + zp.zoneSize / 512)

theorem Live.same (h : Live sp zp z) (hsp : z'.ssd.sp = z.ssd.sp) (hzp : z'.zp = z.zp)
    (hd : z'.zoneDescs = z.zoneDescs) (hr : z'.resInfos = z.resInfos) : Live sp zp z' :=
  ⟨h.counters.same hzp hd hr, h.placed.same hsp hzp hd, by rw [hd]; exact h.alive,
    by rw [hd]; exact h.inside⟩

/-- Management commands, and writes to zones with a random write area. -/
theorem Live.steps (hw : Wide sp zp) (h : Live sp zp z) {leak : Prop}
    (hs : Steps zrwaAdvance leak z z') : Live sp zp z' := by
  have hz := hw.zoneLbas_bounds
  have hc := h.counters.steps hs
  have hp := h.placed.steps (fun _ _ hadv _ => hadv.2) hs
  refine ⟨hc, hp, ?_, ?_⟩
  · refine hs.forall (Q := fun i d => i < zp.nrZones → d.state ≠ .readOnly ∧ d.state ≠ .offline) ?_ h.alive
    intro i d d' hchange hd hi
    have hd := hd hi
    cases hchange with
    | openEmpty _ _ hst | reopen _ hst =>
      constructor <;> (intro he; simp only at he; rw [he] at hst; cases hst)
    | advance _ _ | flush _ _ _ => exact hd
    | offline hro => exact absurd hro hd.1
    | _ => exact ⟨nofun, nofun⟩
  · refine fun i hi => hs.forall (Q := fun i d => Low zp i →
      (d.state = .empty → d.wp = d.zslba) ∧ (d.zrwav = false → d.zslba ≤ d.wp ∧ (d.state ≠ .full →
        d.wp < d.zslba + zp.zoneSize / 512))) ?_
      (fun i hi => ⟨(h.placed.zone i hi.lt).2.1, h.inside i hi⟩) i hi |>.2
    intro i d d' hchange hd hi
    obtain ⟨hempty, hd⟩ := hd hi
    refine ⟨fun he => hchange.wp_of_empty he, fun hv => ?_⟩
    cases hchange with
    | close hst => exact ⟨(hd hv).1, fun _ => (hd hv).2 fun he => by rw [he] at hst; cases hst⟩
    | finish _ => exact ⟨(hd hv).1, fun hfull => absurd rfl hfull⟩
    | openEmpty he _ _ =>
      simp only [hempty he]
      exact ⟨Nat.le_refl _, fun _ => by omega⟩
    | reopen hst _ => exact ⟨(hd hv).1, fun _ => (hd hv).2 fun he => by rw [he] at hst; cases hst⟩
    | reset =>
      simp only
      exact ⟨Nat.le_refl _, fun _ => by omega⟩
    | advance _ hadv | fill _ hadv | flush _ _ hadv | flushFull _ _ hadv =>
      simp only [hadv.1] at hv
      cases hv
    | offline hro => exact ⟨(hd hv).1, fun _ => (hd hv).2 fun he => by rw [he] at hro; cases hro⟩

/-- The start of such a zone. -/
theorem Low.zoneToSlba_eq (hi : Low zp i) (hw : Wide sp zp) (h : Params sp zp z) :
    zoneToSlba z i = i * (zp.zoneSize / 512) := by
  have := hi.fits
  have := hi.lt
  have := hw.count
  unfold zoneToSlba
  rw [h.zoneLbas_eq hw, u32_of_lt (n := i) (by omega), u32_of_lt (by omega)]

/-- The loop of a `select_all` command finds the zone. -/
theorem Low.lbaToZone_zoneToSlba (hi : Low zp i) (hw : Wide sp zp) (h : Params sp zp z) :
    lbaToZone z (zoneToSlba z i) = i := by
  have hz := hw.zoneLbas_bounds
  rw [hi.zoneToSlba_eq hw h]
  have hin : InNs zp (i * (zp.zoneSize / 512)) := Nat.mul_lt_mul_of_pos_right hi.lt (by omega)
  rw [(h.zone_of_inNs hw hin).1, Nat.mul_div_cancel _ (by omega)]

/-! ## What a management command does to a zone -/

/-- A reset of a zone that can be reset. -/
theorem reset_zone (hro : (z.zoneDescs zid).state ≠ .readOnly)
    (hoff : (z.zoneDescs zid).state ≠ .offline) :
    ((zmgmtSendResetZone z zid).2.zoneDescs zid).zrwav = false ∧
      ((zmgmtSendResetZone z zid).2.zoneDescs zid).wp =
        ((zmgmtSendResetZone z zid).2.zoneDescs zid).zslba := by
  cases hs : (z.zoneDescs zid).state with
  | readOnly => exact absurd hs hro
  | offline => exact absurd hs hoff
  | _ => simp [zmgmtSendResetZone, hs]

/-- Zone `i` has just been reset. -/
def Cleared (z : ZnsFtl τ) (i : Nat) : Prop :=
  (z.zoneDescs i).zrwav = false ∧ (z.zoneDescs i).wp = (z.zoneDescs i).zslba

theorem Cleared.keeps (h : Cleared z i) (hp : Placed sp zp z) (hp' : Placed sp zp z')
    (hi : i < zp.nrZones) (hk : Keeps z z' i) : Cleared z' i := by
  refine ⟨hk.zrwav.trans h.1, ?_⟩
  rw [hk.wp h.1, h.2, (hp.zone i hi).1.1, (hp'.zone i hi).1.1]

/-- One action on one zone. -/
theorem Live.zmgmtSend_zone (hw : Wide sp zp) (h : Live sp zp z) {junk slba : Nat} (hlt : slba < 2 ^ 63)
    (hz : lbaToZone z slba < zp.nrZones) (action : ZoneSendAction) (option : Bool) :
    Partial (zmgmtSend z junk slba action option) fun r => Live sp zp r.2 ∧ ∀ i < zp.nrZones,
      (action = .reset ∧ i = lbaToZone z slba → Cleared r.2 i) ∧
      (¬ (action = .reset ∧ i = lbaToZone z slba) → Keeps z r.2 i ∨
        (action = .openZone ∧ option = true ∧ i = lbaToZone z slba ∧ (z.zoneDescs i).state = .empty ∧
          (r.2.zoneDescs i).zrwav = true)) := by
  intro r hr
  have hs : Steps zrwaAdvance True z r.2 :=
    h.counters.zmgmtSend allowsFlush_zrwaAdvance hlt hz action option r hr
  refine ⟨h.steps hw hs, fun i hi => ⟨?_, fun hreset => ?_⟩⟩
  · rintro ⟨rfl, rfl⟩
    cases hr
    exact reset_zone (h.alive _ hi).1 (h.alive _ hi).2
  · obtain hk | hc | hopen := zmgmtSend_keeps (i := i) junk slba action option r hr
    · exact .inl hk
    · exact absurd hc hreset
    · exact .inr hopen

/-- A management command clears the zones that it resets. The others keep their write pointer, or are
empty and get a random write area. -/
theorem Live.znsZmgmtSend_zone (hw : Wide sp zp) (h : Live sp zp z) {junk : Nat}
    {cmd : ZoneMgmtSend} {nsecsStart : Nat} (hin : cmd.selectAll = false → InNs zp cmd.slba) :
    Partial (znsZmgmtSend z junk cmd nsecsStart) fun r => Live sp zp r.2 ∧ ∀ i, Low zp i →
      (resetsZone z (.zoneMgmtSend cmd nsecsStart junk) i → Cleared r.2 i) ∧
      (¬ resetsZone z (.zoneMgmtSend cmd nsecsStart junk) i → Keeps z r.2 i ∨
        (opensWithZrwa z (.zoneMgmtSend cmd nsecsStart junk) i ∧ (z.zoneDescs i).state = .empty ∧
          (r.2.zoneDescs i).zrwav = true)) := by
  unfold Nvmev.znsZmgmtSend resetsZone opensWithZrwa
  dsimp only
  split
  · rename_i hsel
    refine Partial.bind (Q := fun z' => Live sp zp z' ∧ ∀ i, Low zp i →
      (cmd.zsa = .reset → i < z.zp.nrZones → Cleared z' i) ∧
      (cmd.zsa ≠ .reset → Keeps z z' i ∨
        (cmd.zsa = .openZone ∧ cmd.zsaso = true ∧ (z.zoneDescs i).state = .empty ∧
          (z'.zoneDescs i).zrwav = true))) ?_ fun z' h' => .ret ?_
    · -- After `k` turns the zones below `k` are reset, if the action is to reset. Beyond block 2^32
      -- a turn can find another zone than `k`, and reset that one again.
      refine Partial.forRange (I := fun k z' => Live sp zp z' ∧ ∀ i, Low zp i →
        (cmd.zsa = .reset → i < k → Cleared z' i) ∧
        (cmd.zsa ≠ .reset → Keeps z z' i ∨
          (cmd.zsa = .openZone ∧ cmd.zsaso = true ∧ (z.zoneDescs i).state = .empty ∧
            (z'.zoneDescs i).zrwav = true)))
        ⟨h, fun i _ => ⟨fun _ hk => absurd hk (by omega), fun _ => .inl (.of_eq rfl)⟩⟩ ?_
      intro k hk z' h'
      rw [h.placed.zp_eq] at hk
      have hlt : zoneToSlba z' k < 2 ^ 63 := (u32_lt _).trans (by decide)
      refine Partial.bind (h'.1.zmgmtSend_zone hw hlt (lbaToZone_zoneToSlba_lt hk hw.count) cmd.zsa
        cmd.zsaso) fun r hr => .ret ⟨hr.1, fun i hi => ⟨?_, ?_⟩⟩
      · intro ha hik
        by_cases hi' : i = lbaToZone z' (zoneToSlba z' k)
        · exact (hr.2 i hi.lt).1 ⟨ha, hi'⟩
        · obtain hkeep | ⟨ha', -⟩ := (hr.2 i hi.lt).2 fun hc => hi' hc.2
          · have hne : i ≠ k := by
              rintro rfl
              exact hi' (hi.lbaToZone_zoneToSlba hw h'.1.placed.toParams).symm
            exact ((h'.2 i hi).1 ha (by omega)).keeps h'.1.placed hr.1.placed hi.lt hkeep
          · rw [ha] at ha'
            cases ha'
      · intro ha
        obtain hkeep | ⟨ha', ho, -, hemp, hv⟩ := (hr.2 i hi.lt).2 fun hc => ha hc.1
        · obtain hkeep' | ⟨ha', ho, hemp, hv⟩ := (h'.2 i hi).2 ha
          · exact .inl (hkeep'.trans hkeep)
          · exact .inr ⟨ha', ho, hemp, hkeep.zrwav.trans hv⟩
        · obtain hkeep' | hopen := (h'.2 i hi).2 ha
          · exact .inr ⟨ha', ho, hkeep'.empty hemp, hv⟩
          · exact .inr ⟨ha', ho, hopen.2.2.1, hv⟩
    · refine ⟨h'.1, fun i hi =>
        ⟨fun hc => (h'.2 i hi).1 hc.1 (by rw [h.placed.zp_eq]; exact hi.lt), fun hc => ?_⟩⟩
      obtain hk | ⟨ha, ho, hemp, hv⟩ := (h'.2 i hi).2 fun ha => hc ⟨ha, .inl hsel⟩
      · exact .inl hk
      · exact .inr ⟨⟨ha, ho, .inl hsel⟩, hemp, hv⟩
  · rename_i hsel
    have hin := hin (by simpa using hsel)
    refine Partial.bind (h.zmgmtSend_zone hw ((InNs.lt_wide hw hin).trans (by decide))
      (h.placed.zone_of_inNs hw hin).2.1 cmd.zsa cmd.zsaso) fun r hr => .ret ⟨hr.1, fun i hi => ⟨?_, ?_⟩⟩
    · rintro ⟨ha, hall | hi'⟩
      · exact absurd hall hsel
      · exact (hr.2 i hi.lt).1 ⟨ha, hi'.symm⟩
    · intro hc
      obtain hk | ⟨ha, ho, hi', hemp, hv⟩ := (hr.2 i hi.lt).2 fun hc' => hc ⟨hc'.1, .inr hc'.2.symm⟩
      · exact .inl hk
      · exact .inr ⟨⟨ha, ho, .inr hi'.symm⟩, hemp, hv⟩

/-! ## What a write does to a zone -/

/-- A block between the ends of a zone is a block of that zone. -/
theorem Params.lbaToZone_of_mem (hw : Wide sp zp) (h : Params sp zp z) (hi : i < zp.nrZones) {lba : Nat}
    (hge : i * (zp.zoneSize / 512) ≤ lba) (hlt : lba < i * (zp.zoneSize / 512) + zp.zoneSize / 512) :
    InNs zp lba ∧ lbaToZone z lba = i := by
  have hin : InNs zp lba :=
    calc lba < (i + 1) * (zp.zoneSize / 512) := by rw [Nat.succ_mul]; exact hlt
      _ ≤ zp.nrZones * (zp.zoneSize / 512) := Nat.mul_le_mul_right _ hi
  refine ⟨hin, ?_⟩
  rw [(h.zone_of_inNs hw hin).1]
  exact Nat.div_eq_of_lt_le hge (by rw [Nat.succ_mul]; exact hlt)

/-- The blocks that a plain write wrote, if it succeeded. -/
theorem Live.plainDone_range (hw : Wide sp zp) (h : Live sp zp z) (hz : Low zp zid)
    (hv : (z.zoneDescs zid).zrwav = false) {req : RwRequest} {o : IoOutcome (ZnsFtl τ)} {st : ZoneState}
    (hd : PlainDone z req o zid st) :
    (z.zoneDescs zid).wp + req.cmd.nrLbas ≤ (z.zoneDescs zid).zslba + zp.zoneSize / 512 ∧
      u64 ((z.zoneDescs zid).wp + u32 req.cmd.nrLbas) = (z.zoneDescs zid).wp + req.cmd.nrLbas ∧
      u64 (zoneToSlba z zid + (z.zoneDescs zid).zoneCapacity) =
        (z.zoneDescs zid).zslba + zp.zoneSize / 512 := by
  have hn := nrLbas_le req.cmd
  have hend := hz.fits
  obtain ⟨⟨hslba, hcap⟩, -, -⟩ := h.placed.zone zid hz.lt
  obtain ⟨hge, hlt⟩ := h.inside zid hz hv
  have hlt := hlt hd.notFull
  rw [hslba] at hge hlt ⊢
  obtain ⟨hin, hzone⟩ := h.placed.lbaToZone_of_mem hw hz.lt hge hlt
  obtain ⟨-, hle⟩ := h.placed.range_in_zone hw hin (nrLbas_pos _) hn hd.boundary
  rw [hzone] at hle
  refine ⟨hle, ?_, ?_⟩
  · rw [u32_of_lt (by omega), u64_of_lt (by omega)]
  · rw [hz.zoneToSlba_eq hw h.placed.toParams, hcap, u64_of_lt (by omega)]

/-- The zones after a plain write. -/
theorem Live.plainWrite (hw : Wide sp zp) (h : Live sp zp z) (B : PerfModel τ) {req : RwRequest}
    (hz : lbaToZone z req.cmd.slba = zid) (hzn : zid < zp.nrZones)
    (hv : (z.zoneDescs zid).zrwav = false) :
    Partial (znsWritePlain B z req) fun o => Live sp zp o.ftl := by
  intro o ho
  have hzn' : lbaToZone z req.cmd.slba < zp.nrZones := by rw [hz]; exact hzn
  have hv' : (z.zoneDescs (lbaToZone z req.cmd.slba)).zrwav = false := by rw [hz]; exact hv
  obtain ⟨hc, hp⟩ := h.placed.znsWritePlain B h.counters hzn' hv' o ho
  obtain ⟨-, hds⟩ | ⟨st, hd⟩ := h.counters.plainWrite_cases B hz hzn o ho
  · exact ⟨hc, hp, by rw [hds]; exact h.alive, by rw [hds]; exact h.inside⟩
  refine ⟨hc, hp, fun i hi => ?_, fun i hi hv' => ?_⟩
  · rw [hd.descs]
    by_cases hiz : i = zid
    · subst hiz
      simp only [update_self]
      have hst := hd.opened
      split
      · exact ⟨nofun, nofun⟩
      · constructor <;> (intro he; rw [he] at hst; cases hst)
    · rw [update_of_ne hiz]
      exact h.alive i hi
  · by_cases hiz : i = zid
    · subst hiz
      obtain ⟨hrange, hwp, hend⟩ := h.plainDone_range hw hi hv hd
      obtain ⟨hge, -⟩ := h.inside i hi hv
      rw [hd.descs]
      simp only [update_self, hwp, hend]
      refine ⟨by omega, fun hfull => ?_⟩
      by_cases hlast : (z.zoneDescs i).wp + req.cmd.nrLbas = (z.zoneDescs i).zslba + zp.zoneSize / 512
      · rw [if_pos hlast] at hfull
        exact absurd rfl hfull
      · omega
    · rw [hd.descs, update_of_ne hiz] at hv' ⊢
      exact h.inside i hi hv'

/-- What a write leaves in every zone: `written i` are the blocks that it wrote to zone `i`. -/
structure WriteEffect (sp : SsdParams) (zp : ZnsParams) (z z' : ZnsFtl τ) (written : Nat → List Span) :
    Prop where
  live : Live sp zp z'
  zrwav : ∀ i, Low zp i → (z'.zoneDescs i).zrwav = (z.zoneDescs i).zrwav
  tiles : ∀ i, Low zp i → (z.zoneDescs i).zrwav = false →
    Tiles (z.zoneDescs i).wp (written i) (z'.zoneDescs i).wp
  inside : ∀ i, Low zp i → ∀ r ∈ written i, (z.zoneDescs i).zslba ≤ r.start ∧
    r.start + r.len ≤ (z.zoneDescs i).zslba + zp.zoneSize / 512

/-- A command that wrote nothing and moved no write pointer of a plain zone. -/
theorem WriteEffect.keeps (h : Live sp zp z') (hk : ∀ i, Keeps z z' i) {written : Nat → List Span}
    (hw : ∀ i, written i = []) : WriteEffect sp zp z z' written where
  live := h
  zrwav i _ := (hk i).zrwav
  tiles i _ hv := by
    rw [hw]
    exact ((hk i).wp hv).symm
  inside i _ r hr := by
    rw [hw] at hr
    cases hr

/-- The blocks of an outcome. -/
def outcomeSpans (o : IoOutcome (ZnsFtl τ)) (zid nrLba i : Nat) : List Span :=
  if o.accepted = true ∧ o.ret.status = Sc.success ∧ zid = i then [⟨o.cmd.slba, nrLba⟩] else []

theorem Live.znsWritePlain_effect (hw : Wide sp zp) (h : Live sp zp z) (B : PerfModel τ)
    {req : RwRequest} (hz : lbaToZone z req.cmd.slba = zid) (hzn : zid < zp.nrZones)
    (hv : (z.zoneDescs zid).zrwav = false) : Partial (znsWritePlain B z req) fun o =>
      WriteEffect sp zp z o.ftl (outcomeSpans o zid req.cmd.nrLbas) := by
  intro o ho
  have hlive := h.plainWrite hw B hz hzn hv o ho
  obtain ⟨hfail, hds⟩ | ⟨st, hd⟩ := h.counters.plainWrite_cases B hz hzn o ho
  · refine .keeps hlive (fun i => .of_eq (by rw [hds])) fun i => ?_
    exact if_neg fun hcond => hfail ⟨hcond.1, hcond.2.1⟩
  have hspans (i : Nat) : outcomeSpans o zid req.cmd.nrLbas i =
      if zid = i then [⟨(z.zoneDescs zid).wp, req.cmd.nrLbas⟩] else [] := by
    simp [outcomeSpans, hd.accepted, hd.status_eq, hd.cmd_eq]
  refine ⟨hlive, fun i _ => (znsWritePlain_zone B i o ho).1, fun i hi _ => ?_, fun i hi r hr => ?_⟩
  · rw [hspans, hd.descs]
    by_cases hiz : i = zid
    · subst hiz
      rw [if_pos rfl, update_self, (h.plainDone_range hw hi hv hd).2.1]
      exact ⟨rfl, rfl⟩
    · rw [if_neg (Ne.symm hiz), update_of_ne hiz]
      exact rfl
  · rw [hspans] at hr
    split at hr
    · rename_i hiz
      subst hiz
      rw [List.mem_singleton] at hr
      subst hr
      exact ⟨(h.inside zid hi hv).1, (h.plainDone_range hw hi hv hd).1⟩
    · cases hr

/-- A ZRWA write that succeeds passed the checks, and it does not change its address. -/
theorem zrwaWrite_inside {n : Nat} (h : Counters n z) (B : PerfModel τ) {req : RwRequest}
    (hz : lbaToZone z req.cmd.slba = zid) (hzn : zid < n) (hv : (z.zoneDescs zid).zrwav = true) :
    Partial (znsWriteZrwa B z req) fun o => o.cmd = req.cmd ∧
      (o.ret.status = Sc.success → o.accepted = true → InWindow z zid req.cmd.slba req.cmd.nrLbas) := by
  unfold Nvmev.znsWriteZrwa
  simp only [hz]
  refine Partial.bind (h.zrwaChecks zrwaAdvance True hzn hv _ _) fun r hr => ?_
  obtain ⟨status, hne, rfl⟩ | ⟨hnone, hin, -⟩ := hr
  · exact .ret ⟨rfl, fun hst => absurd hst hne⟩
  obtain ⟨r₁, z₁⟩ := r
  obtain rfl : r₁ = none := hnone
  simp only []
  refine Partial.bind (Q := fun _ => True) (fun _ _ => trivial) fun flush _ => ?_
  refine Partial.bind (Q := fun _ => True) (fun _ _ => trivial) fun r _ => ?_
  split
  · exact .ret ⟨rfl, fun _ _ => hin⟩
  · exact .ret ⟨rfl, fun _ _ => hin⟩

theorem Live.znsWriteZrwa_effect (hw : Wide sp zp) (h : Live sp zp z) (B : PerfModel τ)
    {req : RwRequest} (hin : InNs zp req.cmd.slba) (hz : lbaToZone z req.cmd.slba = zid)
    (hv : (z.zoneDescs zid).zrwav = true) : Partial (znsWriteZrwa B z req) fun o =>
      WriteEffect sp zp z o.ftl (outcomeSpans o zid req.cmd.nrLbas) := by
  intro o ho
  obtain ⟨-, hzn, hge, -⟩ := h.placed.zone_of_inNs hw hin
  have hv' : (z.zoneDescs (lbaToZone z req.cmd.slba)).zrwav = true := by rw [hz]; exact hv
  have hk := znsWriteZrwa_keeps B hv' o ho
  have hlive := h.steps hw (h.placed.znsWriteZrwa hw h.counters B hin hv' o ho)
  rw [hz] at hzn hge
  obtain ⟨hcmd, hwin⟩ := zrwaWrite_inside h.counters B hz hzn hv o ho
  refine ⟨hlive, fun i _ => (hk i).zrwav, fun i _ hvi => ?_, fun i hi r hr => ?_⟩
  · rw [outcomeSpans, if_neg]
    · exact ((hk i).wp hvi).symm
    · rintro ⟨-, -, rfl⟩
      rw [hv] at hvi
      cases hvi
  · unfold outcomeSpans at hr
    split at hr
    · rename_i hcond
      obtain ⟨hacc, hst, rfl⟩ := hcond
      rw [List.mem_singleton] at hr
      subst hr
      obtain ⟨-, hend⟩ := h.placed.range_in_zone hw hin (nrLbas_pos _) (nrLbas_le _)
        (hwin hst hacc).boundary
      rw [hz] at hend
      rw [(h.placed.zone zid hi.lt).1.1, hcmd]
      exact ⟨hge, hend⟩
    · cases hr

theorem Live.rw_effect (hw : Wide sp zp) (h : Live sp zp z) (B : PerfModel τ)
    {req : RwRequest} (hin : InNs zp req.cmd.slba) :
    Partial (znsProcNvmeIoCmd B z (.rw req)) fun z' =>
      WriteEffect sp zp z z' fun i => succeededOn B z i (.rw req) := by
  have hzn := (h.placed.zone_of_inNs hw hin).2.1
  by_cases hop : req.cmd.opcode = .write ∨ req.cmd.opcode = .zoneAppend
  · have hwrite : Partial (znsWrite B z req) fun o =>
        WriteEffect sp zp z o.ftl (outcomeSpans o (lbaToZone z req.cmd.slba) req.cmd.nrLbas) := by
      unfold Nvmev.znsWrite
      rw [h.placed.lpnToZone_eq hw]
      split
      · rename_i hv
        exact h.znsWritePlain_effect hw B rfl hzn hv
      · rename_i hv
        exact h.znsWriteZrwa_effect hw B hin rfl (by simpa using hv)
    rw [znsProcRw_write B hop]
    refine Partial.bind (Q := fun o => WriteEffect sp zp z o.ftl fun i => succeededOn B z i (.rw req))
      (fun o ho => ?_) fun o ho => .ret ho
    have hspans : (fun i => succeededOn B z i (.rw req)) =
        outcomeSpans o (lbaToZone z req.cmd.slba) req.cmd.nrLbas := by
      funext i
      simp only [succeededOn, if_pos hop, ho, outcomeSpans]
    rw [hspans]
    exact hwrite o ho
  · have hnone (i : Nat) : succeededOn B z i (.rw req) = [] := by simp only [succeededOn, if_neg hop]
    refine znsProcRw_partial B (fun h => absurd h hop) fun perf => ?_
    have hlive : Live sp zp (z.setPerf perf) := h.same rfl rfl rfl rfl
    have hkeeps (i : Nat) : Keeps z (z.setPerf perf) i := .of_eq rfl
    exact .keeps hlive hkeeps hnone

/-! ## Runs -/

/-- The zones, and their records. -/
structure CoverInv (sp : SsdParams) (zp : ZnsParams) (s : History τ) : Prop where
  live : Live sp zp s.dev.ftl
  tiles : ∀ i, Low zp i → (s.dev.ftl.zoneDescs i).zrwav = false →
    Tiles (s.dev.ftl.zoneDescs i).zslba (s.written i) (s.dev.ftl.zoneDescs i).wp
  inside : ∀ i, Low zp i → ∀ r ∈ s.written i, (s.dev.ftl.zoneDescs i).zslba ≤ r.start ∧
    r.start + r.len ≤ (s.dev.ftl.zoneDescs i).zslba + zp.zoneSize / 512
  opened : ∀ i, Low zp i → (s.dev.ftl.zoneDescs i).zrwav = true → s.zrwaOpened i

theorem CoverInv.command (hw : Wide sp zp) (B : PerfModel τ) {s : History τ}
    (h : CoverInv sp zp s) {req : ZnsRequest} (hon : OnZones zp req) :
    Partial (s.step B (.command req)) (CoverInv sp zp) := by
  intro s' hs'
  obtain ⟨dev, hdev, hs'⟩ := bind_ok.mp hs'
  obtain ⟨⟨z', ops⟩, hz', hdev⟩ := bind_ok.mp hdev
  have hz' := znsProcScheduled_ok hz'
  cases hdev
  cases hs'
  -- the start of a zone stays where it is
  have hslba (hlive : Live sp zp z') (i : Nat) (hi : Low zp i) :
      (z'.zoneDescs i).zslba = (s.dev.ftl.zoneDescs i).zslba := by
    rw [(hlive.placed.zone i hi.lt).1.1, (h.live.placed.zone i hi.lt).1.1]
  cases req with
  | rw req =>
    have he := h.live.rw_effect hw B hon z' hz'
    have hno (i : Nat) : ¬ resetsZone s.dev.ftl (.rw req) i := id
    refine ⟨he.live, fun i hi hv => ?_, fun i hi r hr => ?_, fun i hi hv => ?_⟩
    · have hv' : (s.dev.ftl.zoneDescs i).zrwav = false := (he.zrwav i hi).symm.trans hv
      simp only [if_neg (hno i), hslba he.live i hi]
      exact (h.tiles i hi hv').append (he.tiles i hi hv')
    · simp only [if_neg (hno i), List.mem_append] at hr
      simp only [hslba he.live i hi]
      obtain hr | hr := hr
      · exact h.inside i hi r hr
      · exact he.inside i hi r hr
    · exact ⟨hno i, .inl (h.opened i hi ((he.zrwav i hi).symm.trans hv))⟩
  | zoneMgmtSend cmd nsecsStart junk =>
    obtain ⟨r, hr, hz'⟩ := bind_ok.mp hz'
    cases hz'
    obtain ⟨hlive, hzone⟩ := h.live.znsZmgmtSend_zone hw hon r hr
    have hnil (i : Nat) : succeededOn B s.dev.ftl i (.zoneMgmtSend cmd nsecsStart junk) = [] := rfl
    refine ⟨hlive, fun i hi hv => ?_, fun i hi r hr => ?_, fun i hi hv => ?_⟩
    · by_cases hreset : resetsZone s.dev.ftl (.zoneMgmtSend cmd nsecsStart junk) i
      · simp only [if_pos hreset]
        exact ((hzone i hi).1 hreset).2.symm
      · obtain hk | ⟨-, -, hv'⟩ := (hzone i hi).2 hreset
        · have hv' := hk.zrwav.symm.trans hv
          simp only [if_neg hreset, hnil, List.append_nil, hslba hlive i hi, hk.wp hv']
          exact h.tiles i hi hv'
        · simp only [hv'] at hv
          cases hv
    · by_cases hreset : resetsZone s.dev.ftl (.zoneMgmtSend cmd nsecsStart junk) i
      · simp only [if_pos hreset] at hr
        cases hr
      · simp only [if_neg hreset, hnil, List.append_nil] at hr
        simp only [hslba hlive i hi]
        exact h.inside i hi r hr
    · have hreset : ¬ resetsZone s.dev.ftl (.zoneMgmtSend cmd nsecsStart junk) i := by
        intro hreset
        simp only [((hzone i hi).1 hreset).1] at hv
        cases hv
      obtain hk | ⟨hopen, -⟩ := (hzone i hi).2 hreset
      · exact ⟨hreset, .inl (h.opened i hi (hk.zrwav.symm.trans hv))⟩
      · exact ⟨hreset, .inr hopen⟩

theorem CoverInv.step (hw : Wide sp zp) (B : PerfModel τ) {s : History τ} (h : CoverInv sp zp s)
    {event : ZnsEvent} (hon : ∀ req, event = .command req → OnZones zp req) :
    Partial (s.step B event) (CoverInv sp zp) := by
  cases event with
  | command req => exact h.command hw B (hon req rfl)
  | complete i =>
    intro s' hs'
    obtain ⟨dev, hdev, hs'⟩ := bind_ok.mp hs'
    cases hs'
    unfold ZnsDevice.step at hdev
    dsimp only at hdev
    split at hdev
    · cases hdev
      refine ⟨h.live.same (by simp) (by simp) (by simp) (by simp), ?_, ?_, ?_⟩
      · simpa using h.tiles
      · simpa using h.inside
      · simpa using h.opened
    · cases hdev
      exact h

theorem coverInv_init (hw : Wide sp zp) (perf : τ) (storage : Nat → UInt8) :
    CoverInv sp zp { dev := { ftl := znsInitFtl sp zp perf storage } } := by
  have hz := hw.zoneLbas_bounds
  refine ⟨⟨counters_init hw perf storage, placed_init hw perf storage, fun _ _ => ⟨nofun, nofun⟩,
    fun i _ _ => ⟨Nat.le_refl _, fun _ => ?_⟩⟩, fun _ _ _ => rfl, fun _ _ _ hr => (by cases hr),
    fun _ _ hv => (by cases hv)⟩
  exact Nat.lt_add_of_pos_right (by omega)

end Zns

end Nvmev
