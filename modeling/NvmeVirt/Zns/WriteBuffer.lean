import NvmeVirt.Zns.Flush

/-!
# The write buffer of plain zones

`__zns_write` takes the bytes of a command from a buffer, the one of its zone or the one of the
device, and each NAND program of a one-shot page schedules an internal operation that gives bytes back.

* `failed_write_takes_bytes`: a write that is answered with an error has taken its bytes, and nothing
  gives them back.
-/

namespace Nvmev

open CInt Function Tally Outcome Groups

namespace Zns

variable {τ : Type} {sp : SsdParams} {zp : ZnsParams} {z z' : ZnsFtl τ} {zid : Nat}

/-! ## Writes that fail -/

/-- The resources of the FTL that a write can use are the same in both states: the zones, their
counters and the bytes left in the buffer `ref`. -/
def SameResources (ref : BufferRef) (z z' : ZnsFtl τ) : Prop :=
  z'.zoneDescs = z.zoneDescs ∧ z'.resInfos = z.resInfos ∧
    (z'.buffer ref).remaining = (z.buffer ref).remaining

/-- The states differ at most in the zones, their resources and the stored bytes. -/
structure SameFrame (z z' : ZnsFtl τ) : Prop where
  ssd : z'.ssd = z.ssd
  zp : z'.zp = z.zp
  wb : z'.zoneWriteBuffer = z.zoneWriteBuffer
  zrwa : z'.zrwaBuffer = z.zrwaBuffer

theorem SameFrame.refl : SameFrame z z := ⟨rfl, rfl, rfl, rfl⟩

theorem SameFrame.buffer (h : SameFrame z z') (ref : BufferRef) : z'.buffer ref = z.buffer ref := by
  cases ref <;> simp [ZnsFtl.buffer, h.ssd, h.wb, h.zrwa]

theorem SameFrame.acquire (h : SameFrame z z') (type : ZoneResource) :
    SameFrame z (acquireZoneResource z' type).2 := by
  unfold acquireZoneResource
  split <;> exact ⟨h.ssd, h.zp, h.wb, h.zrwa⟩

theorem SameFrame.openImplicitly (h : SameFrame z z') : SameFrame z (openImplicitly z' zid).2 := by
  have h := h.acquire .openZone
  unfold Nvmev.openImplicitly
  split <;> rename_i he <;> rw [he] at h
  · exact h
  · exact ⟨h.ssd, h.zp, h.wb, h.zrwa⟩

variable (z zid) in
/-- The checks of a write, in any state, touch neither the buffers nor the timing state. -/
theorem writeChecks_frame (slba nrLba : Nat) : SameFrame z (writeChecks z zid slba nrLba).2 := by
  rcases writeChecks_cases z zid slba nrLba with h | h | h <;> rw [h]
  · exact .refl
  · exact SameFrame.refl.openImplicitly
  · exact (SameFrame.refl.acquire _).openImplicitly

@[simp] theorem allocated_buffer (ref : BufferRef) (bytes : Nat) :
    (allocated z ref bytes).buffer ref =
      { z.buffer ref with remaining := (z.buffer ref).remaining - bytes } := by
  cases ref <;> simp [allocated, ZnsFtl.setBuffer, ZnsFtl.buffer]

/-- A write or zone append that `__zns_write` answers with an error has taken the bytes of the command
from the buffer, in every state: each of the error exits comes after the allocation. -/
theorem failed_write_takes_bytes (B : PerfModel τ) (z : ZnsFtl τ) (req : RwRequest)
    (o : IoOutcome (ZnsFtl τ)) (h : znsWritePlain B z req = .ok o) (hacc : o.accepted = true)
    (herr : o.ret.status ≠ Sc.success) :
    ¬ SameResources (zoneBufferRef z (lbaToZone z req.cmd.slba)) z o.ftl := by
  have hpos := nrLbas_pos req.cmd
  rintro ⟨-, -, hsame⟩
  cases znsWritePlain_outcome B h with
  | refused _ href _ _ =>
    rw [href] at hacc
    cases hacc
  | failed status hroom hck _ _ _ =>
    have hbuf := (writeChecks_frame
      (allocated z (zoneBufferRef z (lbaToZone z req.cmd.slba)) (req.cmd.nrLbas * 512))
      (lbaToZone z req.cmd.slba) (plainSlba z req.cmd) req.cmd.nrLbas).buffer
      (zoneBufferRef z (lbaToZone z req.cmd.slba))
    rw [hck, allocated_buffer] at hbuf
    rw [hbuf] at hsame
    simp only at hsame
    omega
  | done _ _ _ _ _ _ _ hst _ _ _ _ _ =>
    exact herr hst

/-- A write of one block to a namespace that writes units of 128 KiB. -/
def oneBlockWrite : RwRequest := { cmd := { opcode := .write, slba := 0, length := 0 } }

/-- The failed write of one block takes 512 bytes. -/
theorem oneBlockWrite_outcome : Total
    (znsWritePlain .instant (znsInitFtl .znsPrototype .znsPrototype () fun _ => 0) oneBlockWrite) fun o =>
      o.accepted = true ∧ o.ret.status = Sc.znsInvalidWrite ∧
      o.ftl.ssd.writeBuffer.remaining = 33554432 - 512 := by decide

theorem failed_write_takes_bytes_oneBlock : ∃ o,
    znsWritePlain .instant (znsInitFtl .znsPrototype .znsPrototype () fun _ => 0) oneBlockWrite = .ok o ∧
      ¬ SameResources .writeBuffer (znsInitFtl .znsPrototype .znsPrototype () fun _ => 0) o.ftl := by
  obtain ⟨o, ho, hacc, hst, -⟩ := oneBlockWrite_outcome
  exact ⟨o, ho, failed_write_takes_bytes .instant _ oneBlockWrite o ho hacc (by rw [hst]; decide)⟩

theorem failed_write_not_sameResources :
    ¬ ∀ o, znsWritePlain .instant (znsInitFtl .znsPrototype .znsPrototype () fun _ => 0) oneBlockWrite =
        .ok o → o.accepted = true → o.ret.status ≠ Sc.success →
        SameResources .writeBuffer (znsInitFtl .znsPrototype .znsPrototype () fun _ => 0) o.ftl := by
  intro hall
  obtain ⟨o, ho, hacc, hst, hrem⟩ := oneBlockWrite_outcome
  obtain ⟨-, -, hsame⟩ := hall o ho hacc (by rw [hst]; decide)
  change o.ftl.ssd.writeBuffer.remaining = 33554432 at hsame
  omega

/-! ## The bytes of a write -/

/-- A configuration with a write buffer for each zone. -/
structure Buffered (sp : SsdParams) (zp : ZnsParams) : Prop where
  wide : Wide sp zp
  wb : zp.zoneWbSize ≠ 0
  wbLt : zp.zoneWbSize < 2 ^ 32

/-- What a write to a plain zone needs to succeed, apart from the room in the buffer. -/
structure Sequential (z : ZnsFtl τ) (req : RwRequest) (zid : Nat) : Prop where
  unit : lbaToByte req.cmd.nrLbas % z.ssd.sp.writeUnitSize = 0
  boundary : checkBoundaryError z (z.zoneDescs zid).wp req.cmd.nrLbas = true
  atWp : plainSlba z req.cmd = (z.zoneDescs zid).wp
  notFull : (z.zoneDescs zid).state ≠ .full

instance (z : ZnsFtl τ) (req : RwRequest) (zid : Nat) : Decidable (Sequential z req zid) :=
  decidable_of_iff (lbaToByte req.cmd.nrLbas % z.ssd.sp.writeUnitSize = 0 ∧
      checkBoundaryError z (z.zoneDescs zid).wp req.cmd.nrLbas = true ∧
      plainSlba z req.cmd = (z.zoneDescs zid).wp ∧ (z.zoneDescs zid).state ≠ .full)
    ⟨fun h => ⟨h.1, h.2.1, h.2.2.1, h.2.2.2⟩, fun h => ⟨h.unit, h.boundary, h.atWp, h.notFull⟩⟩

/-- What a write to a plain zone does to the write buffer of the zone. -/
inductive BufferOutcome (z : ZnsFtl τ) (req : RwRequest) (zid : Nat) (o : IoOutcome (ZnsFtl τ)) :
    Prop where
  | refused (room : (z.zoneWriteBuffer zid).remaining < req.cmd.nrLbas * 512)
    (ftl : o.ftl = z) (ops : o.ops = [])
  | failed (room : req.cmd.nrLbas * 512 ≤ (z.zoneWriteBuffer zid).remaining)
    (fails : ¬ Sequential z req zid) (status : o.ret.status ≠ Sc.success)
    (descs : o.ftl.zoneDescs = z.zoneDescs)
    (wb : o.ftl.zoneWriteBuffer =
      (allocated z (.zoneWriteBuffer zid) (req.cmd.nrLbas * 512)).zoneWriteBuffer)
    (ops : o.ops = [])
  | done (st : ZoneState) (room : req.cmd.nrLbas * 512 ≤ (z.zoneWriteBuffer zid).remaining)
    (passes : Sequential z req zid) (done : PlainDone z req o zid st)
    (wb : o.ftl.zoneWriteBuffer =
      (allocated z (.zoneWriteBuffer zid) (req.cmd.nrLbas * 512)).zoneWriteBuffer)
    (ops : o.ops.map (fun op => (op.writeBuffer, op.buffsToRelease)) =
      (writeTurns z zid (z.zoneDescs zid).wp req.cmd.nrLbas).map
        fun turn => (.zoneWriteBuffer zid, turn.2))

@[simp] theorem increaseWritePtr_wb (k : Nat) :
    (increaseWritePtr z zid k).zoneWriteBuffer = z.zoneWriteBuffer := by
  unfold Nvmev.increaseWritePtr; simp only []; split <;> rfl

@[simp] theorem increaseWritePtr_zp (k : Nat) : (increaseWritePtr z zid k).zp = z.zp := by
  unfold Nvmev.increaseWritePtr; simp only []; split <;> rfl

theorem Live.plainWrite_buffer (hb : Buffered sp zp) (h : Live sp zp z) (B : PerfModel τ)
    {req : RwRequest} (hz : lbaToZone z req.cmd.slba = zid) (hzn : zid < zp.nrZones) :
    Partial (znsWritePlain B z req) fun o => BufferOutcome z req zid o := by
  intro o ho
  have href : zoneBufferRef z (lbaToZone z req.cmd.slba) = .zoneWriteBuffer zid := by
    unfold zoneBufferRef
    rw [h.placed.zp_eq, if_pos hb.wb, hz]
  have hcnt (b : Buffer) (ref : BufferRef) : Counters zp.nrZones (z.setBuffer b ref) :=
    h.counters.same (by simp) (by simp) (by simp)
  have hcases := h.counters.plainWrite_cases B hz hzn o ho
  cases znsWritePlain_outcome B ho with
  | refused hroom _ hftl hops =>
    rw [href] at hroom
    exact .refused hroom hftl hops
  | failed status hroom hck hacc hst hops =>
    have hne : o.ret.status ≠ Sc.success := by
      rw [hst]
      exact writeChecks_status hck
    rw [href] at hroom hck
    rw [hz] at hck
    obtain ⟨_, -, hno, he⟩ | ⟨z₁, he, -⟩ := (hcnt _ _).writeChecks (fun _ _ => True) True hzn
      (plainSlba z req.cmd) req.cmd.nrLbas
    · rw [allocated, he] at hck
      obtain ⟨-, hftl⟩ := Prod.mk.inj hck
      refine .failed hroom (fun hseq => hno ⟨by simpa using hseq.unit, ?_, by simpa using hseq.atWp, ?_⟩)
        hne (by rw [← hftl, setBuffer_zoneDescs]) (by rw [← hftl]; rfl) hops
      · rw [setBuffer_checkBoundaryError, hseq.atWp]
        exact hseq.boundary
      · rw [setBuffer_zoneDescs, hseq.atWp]
        rintro (⟨hs, hne⟩ | hs | hs | hs)
        · exact hne ((h.placed.zone zid hzn).2.1 hs)
        · exact hseq.notFull hs
        · exact (h.alive zid hzn).1 hs
        · exact (h.alive zid hzn).2 hs
    · rw [allocated, he] at hck
      cases (Prod.mk.inj hck).1
  | done z₁ s stime perf hroom hck hacc hst hcmd hloop _ hftl hops =>
    obtain ⟨hfail, -⟩ | ⟨st, hd⟩ := hcases
    · exact absurd ⟨hacc, hst⟩ hfail
    rw [href] at hroom hck hloop
    rw [hz] at hck hloop hftl
    obtain ⟨_, -, -, he⟩ | ⟨z₂, he, hp⟩ := (hcnt _ _).writeChecks (fun _ _ => True) True hzn
      (plainSlba z req.cmd) req.cmd.nrLbas
    · rw [allocated, he] at hck
      cases (Prod.mk.inj hck).1
    rw [allocated, he] at hck
    obtain rfl : z₂ = z₁ := (Prod.mk.inj hck).2
    refine .done st hroom ⟨hd.unit, hd.boundary, hd.slba_eq, hd.notFull⟩ hd ?_ ?_
    · rw [hftl]
      change (increaseWritePtr z₂ zid req.cmd.nrLbas).zoneWriteBuffer = _
      rw [increaseWritePtr_wb, hp.steps.wb_eq]
      rfl
    · rw [hops, hloop, writeLoop_ops, hd.slba_eq]
      have hturns (elpn fuel lpn : Nat) : flushTurns (increaseWritePtr z₂ zid req.cmd.nrLbas)
          (zoneToElpn z zid) elpn fuel lpn = flushTurns z (zoneToElpn z zid) elpn fuel lpn :=
        flushTurns_congr (by rw [increaseWritePtr_ssd, hp.ssd, setBuffer_sp])
          (by rw [increaseWritePtr_zp, hp.zp, setBuffer_zp]) _ _ _ _
      rw [hturns]
      rfl

@[simp] theorem allocated_perf (ref : BufferRef) (bytes : Nat) :
    (allocated z ref bytes).ssd.perf = z.ssd.perf := by cases ref <;> rfl

/-- The NAND programs of a write to a plain zone: those of its turns if it succeeds, and none if not. -/
structure WriteLog (z z' : ZnsFtl (τ × List NandCmd)) (req : RwRequest) (zid : Nat) : Prop where
  none : ¬ (Sequential z req zid ∧ req.cmd.nrLbas * 512 ≤ (z.zoneWriteBuffer zid).remaining) →
    z'.ssd.perf.2 = z.ssd.perf.2
  turns : Sequential z req zid → req.cmd.nrLbas * 512 ≤ (z.zoneWriteBuffer zid).remaining →
    (z'.ssd.perf.2.drop z.ssd.perf.2.length).map (fun cmd => (cmd.cmd, cmd.ppa)) =
      (writeTurns z zid (z.zoneDescs zid).wp req.cmd.nrLbas).map
        fun turn => (.write, lpnToPpa z turn.1)

theorem Live.plainWrite_log (hb : Buffered sp zp) {z : ZnsFtl (τ × List NandCmd)} (h : Live sp zp z)
    (B : PerfModel τ) {req : RwRequest} (hz : lbaToZone z req.cmd.slba = zid) (hzn : zid < zp.nrZones) :
    Partial (znsWritePlain B.logged z req) fun o => WriteLog z o.ftl req zid := by
  intro o ho
  have hout := znsWritePlain_outcome B.logged ho
  cases h.plainWrite_buffer hb B.logged hz hzn o ho with
  | refused hroom hftl _ =>
    exact ⟨fun _ => by rw [hftl], fun _ hroom' => absurd hroom' (by omega)⟩
  | failed _ hfails hst _ _ _ =>
    refine ⟨fun _ => ?_, fun hseq => absurd hseq hfails⟩
    cases hout with
    | refused _ _ hftl _ => rw [hftl]
    | failed _ _ hck _ _ _ =>
      have hframe := writeChecks_frame
        (allocated z (zoneBufferRef z (lbaToZone z req.cmd.slba)) (req.cmd.nrLbas * 512))
        (lbaToZone z req.cmd.slba) (plainSlba z req.cmd) req.cmd.nrLbas
      rw [hck] at hframe
      rw [hframe.ssd, allocated_perf]
    | done _ _ _ _ _ _ _ hst' _ _ _ _ _ => exact absurd hst' hst
  | done st hroom hpass hd _ _ =>
    refine ⟨fun hno => absurd ⟨hpass, hroom⟩ hno, fun hseq _ => ?_⟩
    cases hout with
    | refused _ hacc _ _ =>
      rw [hd.accepted] at hacc
      cases hacc
    | failed _ _ hck _ hst _ => exact absurd (hst.symm.trans hd.status_eq) (writeChecks_status hck)
    | done z₁ s stime perf _ hck _ _ _ hloop hstart hftl _ =>
      have hframe := writeChecks_frame
        (allocated z (zoneBufferRef z (lbaToZone z req.cmd.slba)) (req.cmd.nrLbas * 512))
        (lbaToZone z req.cmd.slba) (plainSlba z req.cmd) req.cmd.nrLbas
      rw [hck] at hframe
      have hperf : perf.2 = z.ssd.perf.2 := by
        have hp := congrArg (fun r => r.2.2) hstart
        dsimp only at hp
        rw [← hp]
        change z₁.ssd.perf.2 = z.ssd.perf.2
        rw [hframe.ssd, allocated_perf]
      have hsp : (increaseWritePtr z₁ zid req.cmd.nrLbas).ssd.sp = z.ssd.sp := by
        rw [increaseWritePtr_ssd, hframe.ssd, allocated, setBuffer_sp]
      have hzp : (increaseWritePtr z₁ zid req.cmd.nrLbas).zp = z.zp := by
        rw [increaseWritePtr_zp, hframe.zp, allocated, setBuffer_zp]
      rw [hftl]
      change (s.perf.2.drop _).map _ = _
      rw [List.map_drop, hloop, hz, writeLoop_log, hd.slba_eq, hperf, flushTurns_congr hsp hzp]
      simp only [lpnToPpa_congr hsp hzp]
      exact List.drop_left' (by simp)

end Zns

end Nvmev
