import NvmeVirt.Zns.Steps

/-!
# What a command leaves alone

`Zns.Keeps`: a zone keeps its random write area and, without one, its write pointer. Only a reset of
the zone, a write to it and an open that gives it a random write area do more to a zone than that. These
are facts of the handlers in any state.
-/

namespace Nvmev

open CInt Function Tally Outcome

namespace Zns

variable {τ : Type} {z z' z'' : ZnsFtl τ} {zid i : Nat}

/-- Zone `i` keeps its random write area, without one it keeps its write pointer, and it does not
become empty. -/
structure Keeps (z z' : ZnsFtl τ) (i : Nat) : Prop where
  zrwav : (z'.zoneDescs i).zrwav = (z.zoneDescs i).zrwav
  wp : (z.zoneDescs i).zrwav = false → (z'.zoneDescs i).wp = (z.zoneDescs i).wp
  empty : (z'.zoneDescs i).state = .empty → (z.zoneDescs i).state = .empty

theorem Keeps.of_eq (h : z'.zoneDescs i = z.zoneDescs i) : Keeps z z' i :=
  ⟨by rw [h], fun _ => by rw [h], fun he => by rwa [← h]⟩

theorem Keeps.trans (h : Keeps z z' i) (h' : Keeps z' z'' i) : Keeps z z'' i :=
  ⟨h'.zrwav.trans h.zrwav, fun hv => (h'.wp (h.zrwav.trans hv)).trans (h.wp hv),
    fun he => h.empty (h'.empty he)⟩

theorem Keeps.setDesc {d : ZoneDescriptor} (hv : d.zrwav = (z.zoneDescs zid).zrwav)
    (hwp : (z.zoneDescs zid).zrwav = false → d.wp = (z.zoneDescs zid).wp)
    (he : d.state = .empty → (z.zoneDescs zid).state = .empty) : Keeps z (z.setDesc zid d) i := by
  by_cases hi : i = zid
  · subst hi
    exact ⟨by simp [hv], fun h => by simp [hwp h], fun h => he (by simpa using h)⟩
  · exact .of_eq (by simp [hi])

theorem Keeps.changeZoneState {state : ZoneState} (hs : state ≠ .empty) :
    Keeps z (changeZoneState z zid state) i :=
  .setDesc rfl (fun _ => rfl) fun h => absurd h hs

variable (z i) in
theorem Keeps.acquire (type : ZoneResource) : Keeps z (acquireZoneResource z type).2 i :=
  .of_eq (by simp)

/-- The handlers of close, finish and offline do nothing else to a zone than setting its state. -/
theorem close_keeps : Keeps z (zmgmtSendCloseZone z zid).2 i := by
  unfold zmgmtSendCloseZone
  split
  · exact (Keeps.changeZoneState (by decide)).trans (.of_eq rfl)
  · exact (Keeps.changeZoneState (by decide)).trans (.of_eq rfl)
  · exact .of_eq rfl
  · exact .of_eq rfl

theorem finish_keeps : Keeps z (zmgmtSendFinishZone z zid).2 i := by
  unfold zmgmtSendFinishZone
  split
  · exact (Keeps.of_eq (by simp)).trans (.changeZoneState (by decide))
  · exact (Keeps.of_eq (by simp)).trans (.changeZoneState (by decide))
  · exact (Keeps.of_eq (by simp)).trans (.changeZoneState (by decide))
  · exact .changeZoneState (by decide)
  · exact .of_eq rfl
  · exact .of_eq rfl

theorem offline_keeps : Keeps z (zmgmtSendOfflineZone z zid).2 i := by
  unfold zmgmtSendOfflineZone
  split
  · exact .changeZoneState (by decide)
  · exact .of_eq rfl
  · exact .of_eq rfl

theorem openClosedZone_keeps : Keeps z (openClosedZone z zid).2 i := by
  have h := Keeps.acquire z i .openZone
  unfold openClosedZone
  split <;> rename_i he
  · rwa [he] at h
  · rw [he] at h
    exact h.trans (.changeZoneState (by decide))

variable (z zid i) in
/-- Opening a zone gives it a random write area only if it was empty and the command asks for one. -/
theorem open_keeps (zrwa : Bool) : Keeps z (zmgmtSendOpenZone z zid zrwa).2 i ∨
    (zrwa = true ∧ i = zid ∧ (z.zoneDescs zid).state = .empty ∧
      ((zmgmtSendOpenZone z zid zrwa).2.zoneDescs i).zrwav = true) := by
  unfold zmgmtSendOpenZone
  split
  · rename_i hs
    split
    · exact .inl (.of_eq rfl)
    split
    · exact .inl (.of_eq rfl)
    split
    · exact .inl (.of_eq rfl)
    have hopen (z₁ : ZnsFtl τ) :
        Keeps z₁ (openClosedZone (acquireZoneResource z₁ .activeZone).2 zid).2 i :=
      (Keeps.acquire _ i _).trans openClosedZone_keeps
    cases zrwa with
    | false => exact .inl (hopen z)
    | true =>
      by_cases hi : i = zid
      · refine .inr ⟨rfl, hi, hs, ?_⟩
        rw [if_pos rfl, (hopen _).zrwav]
        simp [hi]
      · refine .inl (Keeps.trans ?_ (hopen _))
        rw [if_pos rfl]
        exact .of_eq (by simp [hi])
  · exact .inl openClosedZone_keeps
  · exact .inl (.changeZoneState (by decide))
  · exact .inl (.of_eq rfl)
  · exact .inl (.of_eq rfl)

theorem flushZrwaTo_keeps (hv : (z.zoneDescs zid).zrwav = true) (slba : Nat) :
    Keeps z (flushZrwaTo z zid slba) i := by
  have hd : Keeps z (z.setDesc zid { z.zoneDescs zid with wp := u64 (slba + 1) }) i :=
    .setDesc rfl (fun h => by rw [hv] at h; cases h) id
  unfold flushZrwaTo
  simp only []
  split
  · refine (hd.trans (.of_eq ?_)).trans (.changeZoneState (by decide))
    split <;> rfl
  · exact hd

theorem flushExplicit_keeps (slba : Nat) :
    Partial (zmgmtSendFlushExplicitZrwa z slba) fun r => Keeps z r.2 i := by
  unfold zmgmtSendFlushExplicitZrwa
  simp only []
  split
  · exact .ret (.of_eq rfl)
  rename_i hv
  split
  · exact .ret (.of_eq rfl)
  refine Partial.bind .ensure fun _ _ => ?_
  split
  · exact .ret (.of_eq rfl)
  split
  · exact .ret (flushZrwaTo_keeps (by simpa using hv) slba)
  · exact .ret (flushZrwaTo_keeps (by simpa using hv) slba)
  · exact .ret (flushZrwaTo_keeps (by simpa using hv) slba)
  · exact .ret (.of_eq rfl)

/-- What one management action does to zone `i`. -/
theorem zmgmtSend_keeps (junk slba : Nat) (action : ZoneSendAction) (option : Bool) :
    Partial (zmgmtSend z junk slba action option) fun r =>
      Keeps z r.2 i ∨ (action = .reset ∧ i = lbaToZone z slba) ∨
      (action = .openZone ∧ option = true ∧ i = lbaToZone z slba ∧ (z.zoneDescs i).state = .empty ∧
        (r.2.zoneDescs i).zrwav = true) := by
  unfold zmgmtSend
  cases action with
  | close => exact .ret (.inl close_keeps)
  | finish => exact .ret (.inl finish_keeps)
  | openZone =>
    refine .ret ?_
    obtain h | ⟨hzrwa, rfl, hs, hv⟩ := open_keeps z (lbaToZone z slba) i option
    · exact .inl h
    · exact .inr (.inr ⟨rfl, hzrwa, rfl, hs, hv⟩)
  | reset =>
    refine .ret ?_
    by_cases hi : i = lbaToZone z slba
    · exact .inr (.inl ⟨rfl, hi⟩)
    · left
      refine .of_eq ?_
      unfold zmgmtSendResetZone
      split <;> simp [hi]
  | offline => exact .ret (.inl offline_keeps)
  | flushExplZrwa => exact (flushExplicit_keeps slba).mono fun r hr => .inl hr
  | setZoneDescExt => exact .ret (.inl (.of_eq rfl))
  | other => exact .ret (.inl (.of_eq rfl))
/-! ## Writes to plain zones -/

theorem openImplicitly_keeps : Keeps z (openImplicitly z zid).2 i := by
  have h := Keeps.acquire z i .openZone
  unfold openImplicitly
  split <;> rename_i he
  · rwa [he] at h
  · rw [he] at h
    exact h.trans (.changeZoneState (by decide))

variable (z zid i) in
theorem writeChecks_keeps (slba nrLba : Nat) : Keeps z (writeChecks z zid slba nrLba).2 i := by
  rcases writeChecks_cases z zid slba nrLba with h | h | h <;> rw [h]
  · exact .of_eq rfl
  · exact openImplicitly_keeps
  · exact (Keeps.acquire _ i _).trans openImplicitly_keeps

variable (z zid i) in
theorem increaseWritePtr_zone (k : Nat) :
    ((increaseWritePtr z zid k).zoneDescs i).zrwav = (z.zoneDescs i).zrwav ∧
      ((increaseWritePtr z zid k).zoneDescs i).wp =
        if i = zid then u64 ((z.zoneDescs i).wp + u32 k) else (z.zoneDescs i).wp := by
  unfold Nvmev.increaseWritePtr
  by_cases hi : i = zid
  · subst hi
    simp only []
    split <;> simp
  · simp only []
    split <;> simp [hi]

theorem writeChecks_status {slba nrLba status : Nat} {z' : ZnsFtl τ}
    (h : writeChecks z zid slba nrLba = (some status, z')) : status ≠ Sc.success := by
  unfold Nvmev.writeChecks Nvmev.writeSwitch openImplicitly at h
  intro hst
  subst hst
  repeat' split at h
  all_goals cases h

/-- A write to a plain zone moves the write pointer of the zone if it succeeds, and nothing else of
what `Keeps` is about. -/
theorem znsWritePlain_zone (B : PerfModel τ) {req : RwRequest} (i : Nat) :
    Partial (znsWritePlain B z req) fun o =>
      (o.ftl.zoneDescs i).zrwav = (z.zoneDescs i).zrwav ∧
      ((z.zoneDescs i).zrwav = false → (o.ftl.zoneDescs i).wp =
        if o.accepted = true ∧ o.ret.status = Sc.success ∧ i = lbaToZone z req.cmd.slba
        then u64 ((z.zoneDescs i).wp + u32 req.cmd.nrLbas) else (z.zoneDescs i).wp) := by
  intro o ho
  cases znsWritePlain_outcome B ho with
  | refused _ hacc hftl _ => simp [hacc, hftl]
  | failed status _ hck _ hst _ =>
    have hk := writeChecks_keeps
      (allocated z (zoneBufferRef z (lbaToZone z req.cmd.slba)) (req.cmd.nrLbas * 512))
      (lbaToZone z req.cmd.slba) i (plainSlba z req.cmd) req.cmd.nrLbas
    have hne := writeChecks_status hck
    rw [hck] at hk
    refine ⟨by simpa [allocated] using hk.zrwav, fun hv => ?_⟩
    rw [if_neg (by rw [hst]; exact fun h => hne h.2.1), hk.wp (by simpa [allocated] using hv)]
    simp [allocated]
  | done z₁ s _ _ _ hck hacc hst _ _ _ hftl _ =>
    have hk := writeChecks_keeps
      (allocated z (zoneBufferRef z (lbaToZone z req.cmd.slba)) (req.cmd.nrLbas * 512))
      (lbaToZone z req.cmd.slba) i (plainSlba z req.cmd) req.cmd.nrLbas
    rw [hck] at hk
    obtain ⟨hv₂, hwp₂⟩ := increaseWritePtr_zone z₁ (lbaToZone z req.cmd.slba) i req.cmd.nrLbas
    rw [hftl]
    refine ⟨hv₂.trans (by simpa [allocated] using hk.zrwav), fun hv => ?_⟩
    change ((increaseWritePtr z₁ _ _).zoneDescs i).wp = _
    have hwp₁ := hk.wp (by simpa [allocated] using hv)
    rw [hwp₂, hwp₁]
    simp [allocated, hacc, hst]

/-! ## Writes to zones with a random write area -/

theorem increaseWritePtr_keeps (hv : (z.zoneDescs zid).zrwav = true) (k : Nat) :
    Keeps z (increaseWritePtr z zid k) i := by
  have hd : Keeps z (z.setDesc zid
      { z.zoneDescs zid with wp := u64 ((z.zoneDescs zid).wp + u32 k) }) i :=
    .setDesc rfl (fun h => by rw [hv] at h; cases h) id
  unfold Nvmev.increaseWritePtr
  simp only []
  split
  · have hfull (z₁ : ZnsFtl τ) : Keeps z₁ (changeZoneState z₁ zid .full) i :=
      .changeZoneState (by decide)
    refine Keeps.trans ?_ (hfull _)
    exact hd.trans (.of_eq rfl)
  · exact hd

theorem zrwaBufferAllocate_keeps {size : Nat} :
    Partial (zrwaBufferAllocate z zid size) fun r => r.2.zoneDescs = z.zoneDescs := by
  refine zrwaBufferAllocate_eq.mono fun r hr => ?_
  obtain ⟨buf, -, hr⟩ := hr
  rw [hr, setBuffer_zoneDescs]

theorem zrwaChecks_keeps (slba nrLba : Nat) :
    Partial (zrwaChecks z zid slba nrLba) fun r => Keeps z r.2 i := by
  have hopen : Partial (openZrwa z zid) fun r => Keeps z r.2 i := by
    have h := Keeps.acquire z i .openZone
    unfold openZrwa
    split <;> rename_i he <;> rw [he] at h
    · exact .ret h
    · refine Partial.bind zrwaBufferAllocate_keeps fun r hr => ?_
      refine Partial.bind .ensure fun _ _ => .ret ?_
      exact (h.trans (.of_eq (by rw [hr]))).trans (.changeZoneState (by decide))
  unfold Nvmev.zrwaChecks
  simp only []
  split
  · exact .ret (.of_eq rfl)
  split
  · exact .ret (.of_eq rfl)
  split
  · exact .ret (.of_eq rfl)
  split
  · exact hopen
  · exact hopen
  all_goals exact .ret (.of_eq rfl)

/-- A write to a zone with a random write area moves the write pointer of that zone only. -/
theorem znsWriteZrwa_keeps (B : PerfModel τ) {req : RwRequest}
    (hv : (z.zoneDescs (lbaToZone z req.cmd.slba)).zrwav = true) :
    Partial (znsWriteZrwa B z req) fun o => ∀ i, Keeps z o.ftl i := by
  intro o ho i
  revert o
  change Partial (znsWriteZrwa B z req) fun o => Keeps z o.ftl i
  unfold Nvmev.znsWriteZrwa
  simp only []
  refine Partial.bind (Q := fun r => Keeps z r.2 i ∧ Keeps z r.2 (lbaToZone z req.cmd.slba))
    (fun r hr => ⟨zrwaChecks_keeps _ _ r hr, zrwaChecks_keeps _ _ r hr⟩) fun r hr => ?_
  split
  · exact .ret hr.1
  refine Partial.bind (Q := fun _ => True) (fun _ _ => trivial) fun flush _ => ?_
  refine Partial.bind (Q := fun r => Keeps z r.2 i) ?_ fun r hr => ?_
  · unfold flushImplicit
    split
    · refine Partial.bind zrwaBufferAllocate_keeps fun r hr' => .ret ?_
      have hk : Keeps z r.2 i := hr.1.trans (.of_eq (by rw [hr']))
      split
      · exact hk
      · exact hk.trans (increaseWritePtr_keeps (by rw [hr', hr.2.zrwav, hv]) _)
    · exact .ret hr.1
  · obtain ⟨refused, z₂⟩ := r
    simp only []
    split
    · exact .ret hr
    · exact .ret (hr.trans (.of_eq rfl))

/-! ## Dispatch

A read or write command: what its write leaves, and every command that only moves the timing state. -/

theorem znsProcRw_avoids (B : PerfModel τ) {bad : Bug → Prop} {Q : ZnsFtl τ → Prop} {req : RwRequest}
    (hwrite : req.cmd.opcode = .write ∨ req.cmd.opcode = .zoneAppend →
      Avoids bad (znsWrite B z req) fun o => Q o.ftl) (hperf : ∀ perf, Q (z.setPerf perf)) :
    Avoids bad (znsProcNvmeIoCmd B z (.rw req)) Q := by
  unfold znsProcNvmeIoCmd
  simp only []
  split
  · rename_i hop
    exact Avoids.bind (hwrite (.inl hop)) fun o ho => .ret ho
  · rename_i hop
    exact Avoids.bind (hwrite (.inr hop)) fun o ho => .ret ho
  · exact .ret (hperf _)
  · exact .ret (hperf _)
  · exact .ret (hperf z.ssd.perf)

theorem znsProcRw_write (B : PerfModel τ) {req : RwRequest}
    (hop : req.cmd.opcode = .write ∨ req.cmd.opcode = .zoneAppend) :
    znsProcNvmeIoCmd B z (.rw req) = (znsWrite B z req >>= fun o => pure o.ftl) := by
  obtain hop | hop := hop <;> simp only [znsProcNvmeIoCmd, hop]

theorem znsProcRw_partial (B : PerfModel τ) {Q : ZnsFtl τ → Prop} {req : RwRequest}
    (hwrite : req.cmd.opcode = .write ∨ req.cmd.opcode = .zoneAppend →
      Partial (znsWrite B z req) fun o => Q o.ftl) (hperf : ∀ perf, Q (z.setPerf perf)) :
    Partial (znsProcNvmeIoCmd B z (.rw req)) Q :=
  (znsProcRw_avoids B (fun hop => ⟨fun _ _ (hf : False) => hf, hwrite hop⟩) hperf).post

end Zns

end Nvmev
