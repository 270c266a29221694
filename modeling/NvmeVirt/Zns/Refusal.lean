import NvmeVirt.Zns.StateMachine

/-!
# Refused writes

A write handler that returns false leaves the command at the head of its submission queue, to be
submitted again. `refused_write_retryable` says when such a refusal leaves no trace: a zone append
has its address written back before the buffer is asked, and a write to a closed random-write-area
zone opens the zone before it is.
-/

namespace Nvmev

open CInt Function Outcome

namespace Zns

variable {τ : Type} {z : ZnsFtl τ} {zid : Nat}

/-- What a refused command must leave as it was. -/
structure Retryable (z : ZnsFtl τ) (cmd : RwCommand) (o : IoOutcome (ZnsFtl τ)) : Prop where
  zoneDescs : o.ftl.zoneDescs = z.zoneDescs
  resInfos : o.ftl.resInfos = z.resInfos
  writeBuffer : o.ftl.ssd.writeBuffer = z.ssd.writeBuffer
  zoneWriteBuffer : o.ftl.zoneWriteBuffer = z.zoneWriteBuffer
  zrwaBuffer : o.ftl.zrwaBuffer = z.zrwaBuffer
  cmd : o.cmd = cmd

/-- The commands that a refusal does not change: on a plain zone, a write, or a zone append that
already names the write pointer; on a ZRWA zone, one that does not open the zone. -/
def RefusesCleanly (z : ZnsFtl τ) (cmd : RwCommand) : Prop :=
  let d := z.zoneDescs (lbaToZone z cmd.slba)
  if (z.zoneDescs (lpnToZone z (lbaToLpn z cmd.slba))).zrwav = false then
    cmd.opcode = .zoneAppend → cmd.slba = d.wp
  else d.state ≠ .closed ∧ d.state ≠ .empty

/-- The sizes of the ZRWA buffers fit 32 bits, as `__init_descriptor` makes them. -/
def ZrwaBuffers (z : ZnsFtl τ) : Prop := ∀ zid, (z.zrwaBuffer zid).size < 2 ^ 32

/-! ## Every reachable state has such buffers -/

section Sizes

variable {P : Nat → Prop} {z' : ZnsFtl τ}

/-- The sizes of the ZRWA buffers satisfy `P`. -/
def BufferSizes (P : Nat → Prop) (z : ZnsFtl τ) : Prop := ∀ zid, P (z.zrwaBuffer zid).size

theorem BufferSizes.same (h : BufferSizes P z) (he : z'.zrwaBuffer = z.zrwaBuffer) :
    BufferSizes P z' := by
  unfold BufferSizes
  rw [he]
  exact h

theorem BufferSizes.setBuffer (h : BufferSizes P z) {b : Buffer} (ref : BufferRef)
    (hb : b.size = (z.buffer ref).size) : BufferSizes P (z.setBuffer b ref) := by
  cases ref with
  | writeBuffer => exact h
  | zoneWriteBuffer zid => exact h
  | zrwaBuffer zid =>
    intro i
    by_cases hi : i = zid
    · subst hi
      simp only [ZnsFtl.setBuffer, update_self, hb]
      exact h i
    · simp only [ZnsFtl.setBuffer, update_of_ne hi]
      exact h i

theorem bufferAllocate_size {buf buf' : Buffer} {size got : Nat}
    (h : bufferAllocate buf size = .ok (got, buf')) : buf'.size = buf.size := by
  unfold bufferAllocate at h
  obtain ⟨_, -, h⟩ := bind_ok.mp h
  cases h
  rfl

@[simp] theorem release_zrwaBuffer (type : ZoneResource) :
    (releaseZoneResource z type).zrwaBuffer = z.zrwaBuffer := rfl

@[simp] theorem setDesc_zrwaBuffer (d : ZoneDescriptor) :
    (z.setDesc zid d).zrwaBuffer = z.zrwaBuffer := rfl

@[simp] theorem changeZoneState_zrwaBuffer (state : ZoneState) :
    (changeZoneState z zid state).zrwaBuffer = z.zrwaBuffer := rfl

theorem acquire_zrwaBuffer_of_eq {type : ZoneResource} {b : Bool}
    (h : acquireZoneResource z type = (b, z')) : z'.zrwaBuffer = z.zrwaBuffer := by
  have := acquire_zrwaBuffer z type
  rwa [h] at this

@[simp] theorem releaseActive_zrwaBuffer : (releaseActive z zid).zrwaBuffer = z.zrwaBuffer := by
  unfold releaseActive; simp only []; split <;> rfl

@[simp] theorem flushZrwaTo_zrwaBuffer (slba : Nat) :
    (flushZrwaTo z zid slba).zrwaBuffer = z.zrwaBuffer := by
  unfold flushZrwaTo; simp only []; split
  · split <;> rfl
  · rfl

@[simp] theorem increaseWritePtr_zrwaBuffer (n : Nat) :
    (increaseWritePtr z zid n).zrwaBuffer = z.zrwaBuffer := by
  unfold increaseWritePtr; simp only []; split <;> rfl

theorem BufferSizes.resetZone (h : BufferSizes P z) : BufferSizes P (resetZone z zid) := by
  unfold Nvmev.resetZone
  simp only []
  split
  · exact BufferSizes.setBuffer (h.same rfl) (.zrwaBuffer zid) rfl
  · exact h.same rfl

theorem openClosedZone_zrwaBuffer : (openClosedZone z zid).2.zrwaBuffer = z.zrwaBuffer := by
  unfold openClosedZone
  split <;> rename_i he <;> simpa using acquire_zrwaBuffer_of_eq he

theorem openImplicitly_zrwaBuffer : (openImplicitly z zid).2.zrwaBuffer = z.zrwaBuffer := by
  unfold openImplicitly
  split <;> rename_i he <;> simpa using acquire_zrwaBuffer_of_eq he

/-- Only a reset changes the ZRWA buffers. -/
theorem zmgmtSend_zrwaBuffer {junk slba : Nat} {action : ZoneSendAction} {option : Bool}
    (hact : action ≠ .reset) :
    Partial (zmgmtSend z junk slba action option) fun r => r.2.zrwaBuffer = z.zrwaBuffer := by
  unfold zmgmtSend
  cases action with
  | close => unfold zmgmtSendCloseZone; simp only []; split <;> exact .ret rfl
  | finish => unfold zmgmtSendFinishZone; simp only []; split <;> exact .ret (by simp)
  | openZone =>
    refine .ret ?_
    unfold zmgmtSendOpenZone
    simp only []
    split
    · split
      · rfl
      split
      · rfl
      split
      · rfl
      rw [openClosedZone_zrwaBuffer, acquire_zrwaBuffer]
      split <;> simp
    · exact openClosedZone_zrwaBuffer
    all_goals rfl
  | reset => exact absurd rfl hact
  | offline => unfold zmgmtSendOfflineZone; simp only []; split <;> exact .ret rfl
  | flushExplZrwa =>
    unfold zmgmtSendFlushExplicitZrwa
    simp only []
    split
    · exact .ret rfl
    split
    · exact .ret rfl
    refine Partial.bind .ensure fun _ _ => ?_
    split
    · exact .ret rfl
    split <;> exact .ret (by simp)
  | setZoneDescExt => exact .ret rfl
  | other => exact .ret rfl

theorem zmgmtSend_bufferSizes (h : BufferSizes P z) {junk slba : Nat} {action : ZoneSendAction}
    {option : Bool} : Partial (zmgmtSend z junk slba action option) fun r => BufferSizes P r.2 := by
  by_cases hact : action = .reset
  · subst hact
    unfold zmgmtSend zmgmtSendResetZone; simp only []
    split <;> refine .ret ?_
    case h_6 => exact h
    all_goals exact BufferSizes.resetZone (h.same (by simp))
  · exact (zmgmtSend_zrwaBuffer hact).mono fun r hr => h.same hr

theorem writeChecks_zrwaBuffer (zid slba nrLba : Nat) :
    (writeChecks z zid slba nrLba).2.zrwaBuffer = z.zrwaBuffer := by
  rcases writeChecks_cases z zid slba nrLba with h | h | h
  · rw [h]
  · rw [h, openImplicitly_zrwaBuffer]
  · rw [h, openImplicitly_zrwaBuffer, acquire_zrwaBuffer]

/-- A plain write does not use them. -/
theorem znsWritePlain_zrwaBuffer (B : PerfModel τ) (req : RwRequest) :
    Partial (znsWritePlain B z req) fun o => o.ftl.zrwaBuffer = z.zrwaBuffer := by
  have hset (buf : Buffer) :
      (z.setBuffer buf (zoneBufferRef z (lbaToZone z req.cmd.slba))).zrwaBuffer = z.zrwaBuffer := by
    unfold zoneBufferRef
    split <;> rfl
  unfold znsWritePlain
  simp only []
  refine Partial.bind (Q := fun _ => True) (fun _ _ => trivial) fun r _ => ?_
  split
  · exact .ret (hset r.2)
  generalize (if req.cmd.opcode = .zoneAppend then (z.zoneDescs (lbaToZone z req.cmd.slba)).wp
    else req.cmd.slba) = slba
  have hck := (writeChecks_zrwaBuffer (lbaToZone z req.cmd.slba) slba req.cmd.nrLbas).trans (hset r.2)
  split <;> rename_i heq <;> rw [heq] at hck
  · exact .ret hck
  · exact .ret (by simpa [ZnsFtl.setPerf] using hck)

theorem zrwaBufferAllocate_bufferSizes (h : BufferSizes P z) {size : Nat} :
    Partial (zrwaBufferAllocate z zid size) fun r => BufferSizes P r.2 := by
  refine zrwaBufferAllocate_eq.mono fun r hr => ?_
  obtain ⟨buf, ha, hr⟩ := hr
  rw [hr]
  exact h.setBuffer (.zrwaBuffer zid) (bufferAllocate_size ha)

theorem zrwaChecks_bufferSizes (h : BufferSizes P z) (slba nrLba : Nat) :
    Partial (zrwaChecks z zid slba nrLba) fun r => BufferSizes P r.2 := by
  have hopen : Partial (openZrwa z zid) fun r => BufferSizes P r.2 := by
    unfold openZrwa
    split <;> rename_i he <;> have h₁ := h.same (acquire_zrwaBuffer_of_eq he)
    · exact .ret h₁
    · refine Partial.bind (zrwaBufferAllocate_bufferSizes h₁) fun r hr => ?_
      exact Partial.bind .ensure fun _ _ => .ret (hr.same rfl)
  unfold zrwaChecks
  simp only []
  split
  · exact .ret h
  split
  · exact .ret h
  split
  · exact .ret h
  split <;> first | exact hopen | exact .ret h

theorem znsWriteZrwa_bufferSizes (B : PerfModel τ) (h : BufferSizes P z) (req : RwRequest) :
    Partial (znsWriteZrwa B z req) fun o => BufferSizes P o.ftl := by
  unfold znsWriteZrwa
  simp only []
  refine Partial.bind (zrwaChecks_bufferSizes h _ _) fun r hr => ?_
  split
  · exact .ret hr
  refine Partial.bind (Q := fun _ => True) (fun _ _ => trivial) fun flush _ => ?_
  refine Partial.bind (Q := fun r => BufferSizes P r.2) ?_ fun r hr => ?_
  · unfold flushImplicit
    split
    · refine Partial.bind (zrwaBufferAllocate_bufferSizes hr) fun r hr => .ret ?_
      split
      · exact hr
      · exact hr.same (increaseWritePtr_zrwaBuffer _)
    · exact .ret hr
  · obtain ⟨refused, z₂⟩ := r
    simp only []
    split
    · exact .ret hr
    · exact .ret (hr.same rfl)

/-- One command keeps the sizes of the ZRWA buffers. -/
theorem znsProcNvmeIoCmd_bufferSizes (B : PerfModel τ) (h : BufferSizes P z) (req : ZnsRequest) :
    Partial (znsProcNvmeIoCmd B z req) (BufferSizes P) := by
  have hw (req : RwRequest) : Partial (znsWrite B z req) fun o => BufferSizes P o.ftl := by
    unfold znsWrite
    split
    · exact (znsWritePlain_zrwaBuffer B req).mono fun o ho => h.same ho
    · exact znsWriteZrwa_bufferSizes B h req
  cases req with
  | rw req =>
    unfold znsProcNvmeIoCmd
    simp only []
    split
    · exact Partial.bind (hw req) fun o ho => .ret ho
    · exact Partial.bind (hw req) fun o ho => .ret ho
    · exact .ret (h.same rfl)
    · exact .ret (h.same rfl)
    · exact .ret h
  | zoneMgmtSend cmd nsecsStart junk =>
    unfold znsProcNvmeIoCmd znsZmgmtSend
    refine Partial.bind (Q := fun r => BufferSizes P r.2) ?_ fun r hr => .ret hr
    split
    · refine Partial.bind (Q := BufferSizes P) ?_ fun z' h' => .ret h'
      refine Partial.foldlM h fun z' h' zid _ => ?_
      exact Partial.bind (zmgmtSend_bufferSizes h') fun r hr => .ret hr
    · exact Partial.bind (zmgmtSend_bufferSizes h) fun r hr => .ret hr

/-- Every state that a sequence of commands reaches has 32-bit ZRWA buffers. -/
theorem run_zrwaBuffers (B : PerfModel τ) {cfg : ZnsConfig} {sp : SsdParams} {zp : ZnsParams}
    {capacity : Nat} (hzp : znsInitParams cfg sp capacity = .ok zp) (perf : τ)
    (storage : Nat → UInt8) (reqs : List ZnsRequest) :
    Partial (reqs.foldlM (znsProcNvmeIoCmd B) (znsInitFtl sp zp perf storage)) ZrwaBuffers := by
  refine Partial.foldlM (I := BufferSizes (· < 2 ^ 32)) (fun _ => ?_) fun z h req _ =>
    znsProcNvmeIoCmd_bufferSizes B h req
  unfold znsInitParams at hzp
  simp only [bind_ok] at hzp
  obtain ⟨_, _, _, _, _, _, hzp⟩ := hzp
  cases hzp
  exact u32_lt _

end Sizes

/-! ## What a refusal leaves -/

/-- A refused plain write changes at most the address in the command. -/
theorem znsWritePlain_refused (B : PerfModel τ) {req : RwRequest} {o : IoOutcome (ZnsFtl τ)}
    (h : znsWritePlain B z req = .ok o) (hr : o.accepted = false) :
    o.ftl = z ∧ o.cmd = { req.cmd with
      slba := if req.cmd.opcode = .zoneAppend then (z.zoneDescs (lbaToZone z req.cmd.slba)).wp
        else req.cmd.slba } := by
  unfold znsWritePlain at h
  simp only [] at h
  obtain ⟨⟨got, buf⟩, ha, h⟩ := bind_ok.mp h
  have hn := nrLbas_le req.cmd
  rw [lbaToByte_of_lt (by omega)] at ha h
  split at h
  · rename_i hlt
    cases h
    rcases bufferAllocate_cases (by omega) ha with ⟨hgot, -, -⟩ | ⟨-, -, rfl⟩
    · simp only at hlt; omega
    · exact ⟨setBuffer_self _, rfl⟩
  · split at h
    · cases h; cases hr
    · cases h; cases hr

/-- The checks of a ZRWA write that goes on. -/
theorem zrwaChecks_none {slba nrLba : Nat} {z₁ : ZnsFtl τ}
    (h : zrwaChecks z zid slba nrLba = .ok (none, z₁)) :
    ((z.zoneDescs zid).state ≠ .closed ∧ (z.zoneDescs zid).state ≠ .empty ∧ z₁ = z) ∨
      (((z.zoneDescs zid).state = .closed ∨ (z.zoneDescs zid).state = .empty) ∧
        (z₁.zoneDescs zid).state = .openedImpl) := by
  have hopen (h : openZrwa z zid = .ok (none, z₁)) : (z₁.zoneDescs zid).state = .openedImpl := by
    unfold openZrwa at h
    split at h
    · cases h
    · obtain ⟨r, -, h⟩ := bind_ok.mp h
      obtain ⟨_, -, h⟩ := bind_ok.mp h
      cases h
      simp
  unfold zrwaChecks at h
  simp only [] at h
  split at h
  · cases h
  split at h
  · cases h
  split at h
  · cases h
  split at h <;> rename_i hs
  · exact .inr ⟨.inl hs, hopen h⟩
  · exact .inr ⟨.inr hs, hopen h⟩
  · cases h; exact .inl ⟨by simp [hs], by simp [hs], rfl⟩
  · cases h; exact .inl ⟨by simp [hs], by simp [hs], rfl⟩
  all_goals cases h

/-- A failed second allocation changes no zone, and nothing at all where the buffers have a 32-bit
size. -/
theorem flushImplicit_refused {flush : Nat} {z₁ : ZnsFtl τ}
    (h : flushImplicit z zid flush = .ok (true, z₁)) :
    z₁.zoneDescs = z.zoneDescs ∧ (ZrwaBuffers z → z₁ = z) := by
  unfold flushImplicit at h
  split at h
  · obtain ⟨⟨got, z'⟩, ha, h⟩ := bind_ok.mp h
    obtain ⟨buf, ha, rfl⟩ := zrwaBufferAllocate_eq _ ha
    have hgot : got = 0 ∧ z₁ = z.setBuffer buf (.zrwaBuffer zid) := by
      by_cases hg : got = 0 <;> simp [hg, pure, Except.pure] at h
      exact ⟨hg, h.symm⟩
    obtain ⟨rfl, rfl⟩ := hgot
    refine ⟨by simp, fun hb => ?_⟩
    have hsize : lbaToByte flush ≤ (z.zrwaBuffer zid).size := by
      unfold bufferAllocate at ha
      obtain ⟨_, hs, -⟩ := bind_ok.mp ha
      exact ensure_ok.mp hs
    have := hb zid
    rcases bufferAllocate_cases (by omega) ha with ⟨h0, -, rfl⟩ | ⟨-, -, rfl⟩
    · rw [← h0, Nat.sub_zero]
      exact setBuffer_self (.zrwaBuffer zid)
    · exact setBuffer_self (.zrwaBuffer zid)
  · cases h

/-- A refused ZRWA write: either it left everything as it was, or it has opened the zone. -/
theorem znsWriteZrwa_refused (B : PerfModel τ) {req : RwRequest} {o : IoOutcome (ZnsFtl τ)}
    (hb : ZrwaBuffers z) (h : znsWriteZrwa B z req = .ok o) (hr : o.accepted = false) :
    let d := z.zoneDescs (lbaToZone z req.cmd.slba)
    (d.state ≠ .closed ∧ d.state ≠ .empty ∧ o.ftl = z ∧ o.cmd = req.cmd) ∨
      ((d.state = .closed ∨ d.state = .empty) ∧
        (o.ftl.zoneDescs (lbaToZone z req.cmd.slba)).state = .openedImpl) := by
  unfold znsWriteZrwa at h
  simp only [] at h
  obtain ⟨r, hc, h⟩ := bind_ok.mp h
  split at h
  · cases h; cases hr
  rename_i z₁
  obtain ⟨flush, -, h⟩ := bind_ok.mp h
  obtain ⟨⟨refused, z₂⟩, hf, h⟩ := bind_ok.mp h
  cases refused with
  | false => cases h; cases hr
  | true =>
    cases h
    obtain ⟨hds, hz⟩ := flushImplicit_refused hf
    rcases zrwaChecks_none hc with ⟨h1, h2, rfl⟩ | ⟨h1, h2⟩
    · exact .inl ⟨h1, h2, hz hb, rfl⟩
    · exact .inr ⟨h1, by rw [hds]; exact h2⟩

end Zns

/-- A write or zone append that `zns_write` refuses leaves the zones, the resources, the buffers
and the command as they were, exactly when `Zns.RefusesCleanly`. -/
theorem refused_write_retryable {τ : Type} (B : PerfModel τ) {z : ZnsFtl τ} {req : RwRequest}
    {o : IoOutcome (ZnsFtl τ)} (hb : Zns.ZrwaBuffers z) (h : znsWrite B z req = .ok o)
    (hr : o.accepted = false) : Zns.Retryable z req.cmd o ↔ Zns.RefusesCleanly z req.cmd := by
  unfold Zns.RefusesCleanly
  unfold znsWrite at h
  simp only []
  split <;> rename_i hzr
  · rw [if_pos hzr] at h
    obtain ⟨hz, hcmd⟩ := Zns.znsWritePlain_refused B h hr
    constructor
    · intro hret happ
      have := congrArg RwCommand.slba (hcmd.symm.trans hret.cmd)
      simpa [happ] using this.symm
    · intro hslba
      refine ⟨by rw [hz], by rw [hz], by rw [hz], by rw [hz], by rw [hz], ?_⟩
      rw [hcmd]
      by_cases happ : req.cmd.opcode = .zoneAppend
      · rw [if_pos happ, ← hslba happ]
      · rw [if_neg happ]
  · rw [if_neg hzr] at h
    rcases Zns.znsWriteZrwa_refused B hb h hr with ⟨h1, h2, hz, hcmd⟩ | ⟨h1, h2⟩
    · exact ⟨fun _ => ⟨h1, h2⟩,
        fun _ => ⟨by rw [hz], by rw [hz], by rw [hz], by rw [hz], by rw [hz], hcmd⟩⟩
    · constructor
      · intro hret
        rw [hret.zoneDescs] at h2
        rw [h2] at h1
        simp at h1
      · rintro ⟨h3, h4⟩
        exact absurd h1 (by simp [h3, h4])

/-- A `ZNS_PROTOTYPE` after 128 writes of 256 KiB: zone 0 is full, and so is the write buffer, as
long as no program has completed. -/
def Zns.fillZone : Except Bug (ZnsFtl Unit) :=
  ((List.range 128).map fun i =>
    ZnsRequest.rw { cmd := { opcode := .write, slba := 512 * i, length := 511 } }).foldlM
    (znsProcNvmeIoCmd .instant) (znsInitFtl .znsPrototype .znsPrototype () fun _ => 0)

/-- A zone append to the full zone 0 that is refused for the buffer: when it is submitted again it
names zone 1. -/
theorem refused_append_names_next_zone :
    ∃ z o, Zns.fillZone = .ok z ∧
      znsWrite .instant z { cmd := { opcode := .zoneAppend, slba := 0, length := 255 } } = .ok o ∧
      o.accepted = false ∧ lbaToZone z 0 = 0 ∧ lbaToZone z o.cmd.slba = 1 ∧
      ¬ Zns.Retryable z { opcode := .zoneAppend, slba := 0, length := 255 } o := by
  have h : (do
      let z ← Zns.fillZone
      let o ← znsWrite .instant z { cmd := { opcode := .zoneAppend, slba := 0, length := 255 } }
      pure (o.accepted, lbaToZone z 0, lbaToZone z o.cmd.slba, o.cmd.slba)) =
      .ok (false, 0, 1, 65536) := by decide +kernel
  obtain ⟨z, hz, h⟩ := bind_ok.mp h
  obtain ⟨o, ho, h⟩ := bind_ok.mp h
  simp only [pure, Except.pure, Except.ok.injEq, Prod.mk.injEq] at h
  refine ⟨z, o, hz, ho, h.1, h.2.1, h.2.2.1, fun hret => ?_⟩
  have hs := h.2.2.2
  rw [hret.cmd] at hs
  cases hs

/-- `refused_write_retryable` on a plain write to zone 1 that is refused for the buffer. -/
theorem refused_write_retryable_znsPrototype :
    ∃ z o, Zns.fillZone = .ok z ∧
      znsWrite .instant z { cmd := { opcode := .write, slba := 65536, length := 255 } } = .ok o ∧
      o.accepted = false ∧ Zns.Retryable z { opcode := .write, slba := 65536, length := 255 } o := by
  have h : (do
      let z ← Zns.fillZone
      let o ← znsWrite .instant z { cmd := { opcode := .write, slba := 65536, length := 255 } }
      pure (o.accepted, (z.zoneDescs (lpnToZone z (lbaToLpn z 65536))).zrwav)) =
      .ok (false, false) := by decide +kernel
  obtain ⟨z, hz, h⟩ := bind_ok.mp h
  obtain ⟨o, ho, h⟩ := bind_ok.mp h
  simp only [pure, Except.pure, Except.ok.injEq, Prod.mk.injEq] at h
  have hb := Zns.run_zrwaBuffers .instant znsInitParams_znsPrototype () (fun _ => 0) _ z hz
  refine ⟨z, o, hz, ho, h.1, (refused_write_retryable .instant hb ho h.1).mpr ?_⟩
  unfold Zns.RefusesCleanly
  rw [if_pos h.2]
  simp

end Nvmev
