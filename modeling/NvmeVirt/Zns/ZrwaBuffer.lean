import NvmeVirt.Zns.ZrwaUse

/-!
# The reservation of a random write area

A write that implicitly opens a zone with a random write area takes `zrwa_size` bytes of the ZRWA
buffer of the zone, and `NVMEV_ASSERT(0)` follows if they are not there. A close does not give them
back, so each such open takes them once more.

* `zrwa_reservation_assert_iff`: whether a run reaches the assertion, from what each zone has used its
  buffer for since its last reset: the implicit opens, the blocks that were flushed and the bytes that
  completed operations gave back.
-/

namespace Nvmev

open CInt Function Outcome

namespace Zns

variable {τ : Type} {sp : SsdParams} {zp : ZnsParams} {z z' : ZnsFtl τ} {zid i : Nat}

/-- The failed assertion of `__zns_write_zrwa`. -/
def reservationBug : Bug := .assertion .znsWriteZrwa

/-- The command is a write that passes the checks on a closed zone with a random write area: it opens
the zone implicitly. -/
def Reopens (z : ZnsFtl τ) (req : RwRequest) : Prop :=
  let zid := lbaToZone z req.cmd.slba
  WritesZrwa z req ∧ (z.zoneDescs zid).state = .closed ∧ InWindow z zid req.cmd.slba req.cmd.nrLbas

instance (z : ZnsFtl τ) : DecidablePred (Reopens z) := fun _ => by unfold Reopens; infer_instance

/-! ## The history of a zone -/

/-- What a zone has used its ZRWA buffer for since its last reset: the writes that opened it implicitly,
the blocks by which writes moved its write pointer, and the bytes that completed operations gave back. -/
structure ZrwaUse where
  opens : Nat := 0
  flushed : Nat := 0
  released : Nat := 0
  deriving DecidableEq, Repr

/-- The bytes that this leaves of the buffer, in the arithmetic of `size_t`. -/
def ZrwaUse.left (zp : ZnsParams) (u : ZrwaUse) : Nat :=
  sub64 (u64 (zp.zrwaBufferSize + u.released)) (u64 (u.opens * zp.zrwaSize + u.flushed * 512))

/-- The use of zone `i` after an event that takes the device from `s` to `s'`. -/
def ZrwaUse.after (u : ZrwaUse) (i : Nat) (s s' : ZnsDevice τ) : ZnsEvent → ZrwaUse
  | .command (.rw req) =>
    if WritesZrwa s.ftl req ∧ lbaToZone s.ftl req.cmd.slba = i then
      { u with
        opens := u.opens + if Reopens s.ftl req then 1 else 0
        flushed := u.flushed + ((s'.ftl.zoneDescs i).wp - (s.ftl.zoneDescs i).wp) }
    else u
  | .command (.zoneMgmtSend cmd _ _) =>
    if cmd.zsa = .reset ∧ i ∈ aimedAt s.ftl cmd then {} else u
  | .complete k => match s.pending[k]? with
    | some op =>
      if op.writeBuffer = .zrwaBuffer i then { u with released := u.released + op.buffsToRelease } else u
    | none => u

/-- The device, and the use of each zone. -/
structure ZrwaHistory (τ : Type) where
  dev : ZnsDevice τ
  use : Nat → ZrwaUse := fun _ => {}

/-- One event, and its record. -/
def ZrwaHistory.step (B : PerfModel τ) (s : ZrwaHistory τ) (event : ZnsEvent) :
    Except Bug (ZrwaHistory τ) := do
  let dev ← s.dev.step B event
  pure { dev, use := fun i => (s.use i).after i s.dev dev event }

/-- A write that opens a zone implicitly finds that the earlier uses of the buffer have left
`zrwa_size` bytes. -/
def KeepsReservation (zp : ZnsParams) (s : ZrwaHistory τ) : ZnsEvent → Prop
  | .command (.rw req) => Reopens s.dev.ftl req →
      zp.zrwaSize ≤ (s.use (lbaToZone s.dev.ftl req.cmd.slba)).left zp
  | .command (.zoneMgmtSend _ _ _) => True
  | .complete _ => True

instance (s : ZrwaHistory τ) : DecidablePred (KeepsReservation zp s)
  | .command (.rw _) => by unfold KeepsReservation; infer_instance
  | .command (.zoneMgmtSend _ _ _) => .isTrue trivial
  | .complete _ => .isTrue trivial

theorem ZrwaUse.left_empty (hr : Reserves zp) : ({} : ZrwaUse).left zp = zp.zrwaBufferSize := by
  have hlt := hr.bufferLt
  simp only [ZrwaUse.left, sub64, u64]
  omega

/-- More opens and more flushed blocks, for which there is room. -/
theorem ZrwaUse.left_take (u : ZrwaUse) {a b : Nat} (h : a * zp.zrwaSize + b * 512 ≤ u.left zp) :
    ({ u with opens := u.opens + a, flushed := u.flushed + b } : ZrwaUse).left zp =
      u.left zp - (a * zp.zrwaSize + b * 512) := by
  simp only [ZrwaUse.left, sub64, u64, Nat.add_mul] at h ⊢
  generalize u.opens * zp.zrwaSize = x at h ⊢
  generalize a * zp.zrwaSize = y at h ⊢
  omega

theorem ZrwaUse.left_release (u : ZrwaUse) (bytes : Nat) :
    ({ u with released := u.released + bytes } : ZrwaUse).left zp = u64 (u.left zp + bytes) := by
  simp only [ZrwaUse.left, sub64, u64]
  omega

/-- The resources, the zones and the sizes of the ZRWA buffers. -/
structure ReserveInv (sp : SsdParams) (zp : ZnsParams) (z : ZnsFtl τ) : Prop where
  live : Live sp zp z
  sizes : BufferSizes (· = zp.zrwaBufferSize) z

/-! ## The implicit open of a closed zone -/

section Open

variable (hr : Reserves zp) (h : ReserveInv sp zp z) (hz : zid < zp.nrZones)
  (hs : (z.zoneDescs zid).state = .closed)

include hr h hz hs

/-- What is left of the buffer decides about the reservation. -/
theorem openZrwa_cases :
    ((z.zrwaBuffer zid).remaining < zp.zrwaSize ∧ openZrwa z zid = .error reservationBug) ∨
      (zp.zrwaSize ≤ (z.zrwaBuffer zid).remaining ∧ ∃ r, openZrwa z zid = .ok r) := by
  have hpos := hr.pos
  have hle := hr.le
  have hlt := hr.bufferLt
  obtain ⟨z₁, he, -, hzp, -, -⟩ := h.live.counters.reopen zrwaAdvance True hz hs .openedImpl rfl
  have hbuf : z₁.zrwaBuffer = z.zrwaBuffer := acquire_zrwaBuffer_of_eq he
  have hsize : (z.zrwaBuffer zid).size = zp.zrwaBufferSize := h.sizes zid
  unfold openZrwa zrwaBufferAllocate bufferAllocate
  simp only [he, hzp, h.live.placed.zp_eq, hbuf]
  rw [ensure_of _ (by omega), ok_bind, nvmevAssert, ensure_of _ (by omega), ok_bind]
  by_cases hshort : (z.zrwaBuffer zid).remaining < zp.zrwaSize
  · rw [if_pos hshort]
    exact .inl ⟨hshort, rfl⟩
  · refine .inr ⟨by omega, ?_⟩
    rw [if_neg hshort]
    simp only [pure, Except.pure, ok_bind]
    rw [nvmevAssert, ensure_of _ (by rw [u32_of_lt (by omega)]; omega)]
    exact ⟨_, rfl⟩

end Open

/-! ## Writes -/

section Write

variable (hr : Reserves zp) (h : ReserveInv sp zp z)

include hr h

theorem zrwaChecks_short (hz : zid < zp.nrZones) {slba nrLba : Nat}
    (hs : (z.zoneDescs zid).state = .closed) (hin : InWindow z zid slba nrLba)
    (hshort : (z.zrwaBuffer zid).remaining < zp.zrwaSize) :
    zrwaChecks z zid slba nrLba = .error reservationBug := by
  have hge := hin.ge
  have hle := hin.le
  unfold Nvmev.zrwaChecks
  simp only []
  rw [if_neg (by simp [hin.unit]), if_neg (by simp [hin.boundary]), if_neg (by omega), hs]
  obtain ⟨-, herr⟩ | ⟨hroom, -⟩ := openZrwa_cases hr h hz hs
  · exact herr
  · omega

theorem zrwaChecks_returns (hz : zid < zp.nrZones) (hv : (z.zoneDescs zid).zrwav = true)
    {slba nrLba : Nat}
    (hroom : (z.zoneDescs zid).state = .closed → InWindow z zid slba nrLba →
      zp.zrwaSize ≤ (z.zrwaBuffer zid).remaining) :
    ∃ r, zrwaChecks z zid slba nrLba = .ok r := by
  unfold Nvmev.zrwaChecks
  simp only []
  split
  · exact ⟨_, rfl⟩
  rename_i hunit
  split
  · exact ⟨_, rfl⟩
  rename_i hb
  split
  · exact ⟨_, rfl⟩
  rename_i hwin
  split <;> rename_i hs
  · have hroom := hroom hs ⟨by rw [hs]; rfl, by simpa using hunit, by simpa using hb, by omega, by omega⟩
    obtain ⟨hshort, -⟩ | ⟨-, hok⟩ := openZrwa_cases hr h hz hs
    · omega
    · exact hok
  · rw [h.live.counters.empty zid hz hs] at hv
    cases hv
  all_goals exact ⟨_, rfl⟩

omit hr h in
/-- After its checks a ZRWA write can stop, but not with this assertion. -/
theorem flushImplicit_avoids (flush : Nat) :
    Avoids (· = reservationBug) (flushImplicit z zid flush) fun _ => True := by
  unfold Nvmev.flushImplicit zrwaBufferAllocate bufferAllocate nvmevAssert
  split
  · refine Avoids.bind (Q := fun _ => True) ?_ fun _ _ => .ret trivial
    refine Avoids.bind (.ensure fun _ => (by simp [reservationBug])) fun _ _ => ?_
    refine Avoids.bind (Q := fun _ => True) ?_ fun _ _ => .ret trivial
    refine Avoids.bind (.ensure fun _ => (by simp [reservationBug])) fun _ _ => .ret trivial
  · exact .ret trivial

omit hr h in
theorem nrLbasFlush_avoids (prevWp elba : Nat) :
    Avoids (· = reservationBug) (nrLbasFlush z zid prevWp elba) fun _ => True := by
  unfold nrLbasFlush
  simp only []
  split
  · exact Avoids.bind (.ensure fun _ => (by simp [reservationBug])) fun _ _ => .ret trivial
  split
  · exact .ret trivial
  · exact .ret trivial

theorem znsWriteZrwa_stops_iff (B : PerfModel τ) {req : RwRequest}
    (hz : lbaToZone z req.cmd.slba < zp.nrZones)
    (hv : (z.zoneDescs (lbaToZone z req.cmd.slba)).zrwav = true) :
    znsWriteZrwa B z req ≠ .error reservationBug ↔
      ¬ ((z.zoneDescs (lbaToZone z req.cmd.slba)).state = .closed ∧
        InWindow z (lbaToZone z req.cmd.slba) req.cmd.slba req.cmd.nrLbas ∧
        (z.zrwaBuffer (lbaToZone z req.cmd.slba)).remaining < zp.zrwaSize) := by
  constructor
  · rintro hne ⟨hs, hin, hshort⟩
    refine hne ?_
    unfold Nvmev.znsWriteZrwa
    simp only [zrwaChecks_short hr h hz hs hin hshort]
    rfl
  · intro hroom
    obtain ⟨r, hck⟩ := zrwaChecks_returns hr h hz hv fun hs hin =>
      Nat.le_of_not_lt fun hshort => hroom ⟨hs, hin, hshort⟩
    have : Avoids (· = reservationBug) (znsWriteZrwa B z req) fun _ => True := by
      unfold Nvmev.znsWriteZrwa
      simp only [hck, ok_bind]
      split
      · exact .ret trivial
      refine Avoids.bind (nrLbasFlush_avoids _ _) fun flush _ => ?_
      refine Avoids.bind (flushImplicit_avoids flush) fun r _ => ?_
      obtain ⟨refused, z₂⟩ := r
      dsimp only
      split
      · exact .ret trivial
      · exact .ret trivial
    exact fun he => this.safe _ he rfl

end Write

/-! ## Commands and completions -/

theorem znsZmgmtSend_avoids {junk : Nat} {cmd : ZoneMgmtSend} {nsecsStart : Nat} :
    Avoids (· = reservationBug) (znsZmgmtSend z junk cmd nsecsStart) fun _ => True := by
  have hone (z : ZnsFtl τ) (slba : Nat) :
      Avoids (· = reservationBug) (zmgmtSend z junk slba cmd.zsa cmd.zsaso) fun _ => True := by
    unfold Nvmev.zmgmtSend
    simp only []
    split
    case h_6 =>
      unfold zmgmtSendFlushExplicitZrwa
      simp only []
      split
      · exact .ret trivial
      split
      · exact .ret trivial
      refine Avoids.bind (.ensure fun _ => (by simp [reservationBug])) fun _ _ => ?_
      split
      · exact .ret trivial
      split <;> exact .ret trivial
    all_goals exact .ret trivial
  unfold Nvmev.znsZmgmtSend
  split
  · refine Avoids.bind (Q := fun _ => True) ?_ fun _ _ => .ret trivial
    exact Avoids.foldlM trivial fun z _ zid _ => Avoids.bind (hone z _) fun _ _ => .ret trivial
  · exact Avoids.bind (hone z _) fun _ _ => .ret trivial

/-- A command that opens a zone implicitly stops with the assertion exactly if its buffer is short. -/
theorem znsProcRw_stops_iff (hw : Wide sp zp) (hr : Reserves zp) (h : ReserveInv sp zp z)
    (B : PerfModel τ) {req : RwRequest} (hin : InNs zp req.cmd.slba) :
    znsProcNvmeIoCmd B z (.rw req) ≠ .error reservationBug ↔
      (Reopens z req → zp.zrwaSize ≤ (z.zrwaBuffer (lbaToZone z req.cmd.slba)).remaining) := by
  have hz := (h.live.placed.zone_of_inNs hw hin).2.1
  by_cases hop : req.cmd.opcode = .write ∨ req.cmd.opcode = .zoneAppend
  · have hwrite : znsProcNvmeIoCmd B z (.rw req) ≠ .error reservationBug ↔
        znsWrite B z req ≠ .error reservationBug := by
      rw [znsProcRw_write B hop]
      cases znsWrite B z req <;> simp [bind, Except.bind, pure, Except.pure]
    rw [hwrite]
    unfold Reopens WritesZrwa Nvmev.znsWrite
    dsimp only
    rw [h.live.placed.lpnToZone_eq hw]
    split
    · rename_i hv
      refine ⟨fun _ hc => by rw [hv] at hc; exact absurd hc.1.2 (by simp), fun _ he => ?_⟩
      cases znsWritePlain_error B he
    · rename_i hv
      have hv : (z.zoneDescs (lbaToZone z req.cmd.slba)).zrwav = true := by simpa using hv
      rw [znsWriteZrwa_stops_iff hr h B hz hv]
      constructor
      · rintro hno ⟨-, hs, hwin⟩
        exact Nat.le_of_not_lt fun hshort => hno ⟨hs, hwin, hshort⟩
      · rintro hroom ⟨hs, hwin, hshort⟩
        exact absurd (hroom ⟨⟨hop, hv⟩, hs, hwin⟩) (Nat.not_le_of_lt hshort)
  · have hsafe : Avoids (fun _ => True) (znsProcNvmeIoCmd B z (.rw req)) fun _ => True :=
      znsProcRw_avoids B (fun h => absurd h hop) fun _ => trivial
    exact ⟨fun _ hc => absurd hc.1.1 hop, fun _ he => hsafe.safe _ he trivial⟩

/-- One event keeps the zones and the sizes of the buffers. -/
theorem ReserveInv.step (hw : Wide sp zp) {s : ZnsDevice τ} (h : ReserveInv sp zp s.ftl) (B : PerfModel τ)
    {event : ZnsEvent} (hon : ∀ req, event = .command req → OnZones zp req) :
    Partial (s.step B event) fun s' => ReserveInv sp zp s'.ftl := by
  refine ZnsDevice.step_partial h (fun req he z' hz' => ?_) fun op => ?_
  · refine ⟨?_, znsProcNvmeIoCmd_bufferSizes B h.sizes req z' hz'⟩
    have hreq := hon req he
    cases req with
    | rw req => exact (h.live.rw_effect hw B hreq z' hz').live
    | zoneMgmtSend cmd nsecsStart junk =>
      obtain ⟨r, hr, hz'⟩ := bind_ok.mp hz'
      cases hz'
      exact (h.live.znsZmgmtSend_zone hw hreq r hr).1
  · exact ⟨h.live.same (by simp) (by simp) (by simp) (by simp), h.sizes.setBuffer _ rfl⟩

/-! ## Runs -/

/-- What is left of each buffer is what the history of its zone says. -/
structure UseInv (sp : SsdParams) (zp : ZnsParams) (s : ZrwaHistory τ) : Prop where
  inv : ReserveInv sp zp s.dev.ftl
  left : ∀ i, (s.dev.ftl.zrwaBuffer i).remaining = (s.use i).left zp

section Event

variable (hw : Wide sp zp) (hr : Reserves zp) {s : ZrwaHistory τ} (h : UseInv sp zp s)

include hw hr h

theorem UseInv.write (B : PerfModel τ) {req : RwRequest} (hin : InNs zp req.cmd.slba) :
    Partial (s.step B (.command (.rw req))) (UseInv sp zp) := by
  intro s' hs'
  obtain ⟨dev, hdev, hs'⟩ := bind_ok.mp hs'
  have hinv := h.inv.step hw B (fun _ he => by cases he; exact hin) dev hdev
  obtain ⟨⟨z', ops⟩, hz', hdev⟩ := bind_ok.mp hdev
  cases hdev
  cases hs'
  obtain ⟨hwrites, hother⟩ := h.inv.live.rw_taken hw hr h.inv.sizes B hin z' (znsProcScheduled_ok hz')
  refine ⟨hinv, fun i => ?_⟩
  dsimp only [ZrwaUse.after]
  by_cases hc : WritesZrwa s.dev.ftl req ∧ lbaToZone s.dev.ftl req.cmd.slba = i
  · obtain ⟨hc, rfl⟩ := hc
    obtain ⟨hself, -⟩ := hwrites hc
    have hreserved : reserved zp s.dev.ftl (lbaToZone s.dev.ftl req.cmd.slba) req.cmd.slba req.cmd.nrLbas =
        (if Reopens s.dev.ftl req then 1 else 0) * zp.zrwaSize := by
      unfold reserved Reopens
      simp only [hc, true_and]
      split <;> simp
    rw [hreserved, h.left] at hself
    rw [if_pos ⟨hc, rfl⟩, ZrwaUse.left_take _ (by omega)]
    omega
  · rw [if_neg hc, ← h.left]
    by_cases hv : WritesZrwa s.dev.ftl req
    · rw [(hwrites hv).others i fun hi => hc ⟨hv, hi.symm⟩]
    · rw [hother hv]

theorem UseInv.manage (B : PerfModel τ) {cmd : ZoneMgmtSend} {nsecsStart junk : Nat}
    (hin : cmd.selectAll = false → InNs zp cmd.slba) :
    Partial (s.step B (.command (.zoneMgmtSend cmd nsecsStart junk))) (UseInv sp zp) := by
  intro s' hs'
  obtain ⟨dev, hdev, hs'⟩ := bind_ok.mp hs'
  have hinv := h.inv.step hw B (fun _ he => by cases he; exact hin) dev hdev
  obtain ⟨⟨z', ops⟩, hz', hdev⟩ := bind_ok.mp hdev
  cases hdev
  cases hs'
  obtain ⟨r, hr', hz'⟩ := bind_ok.mp (znsProcScheduled_ok hz')
  cases hz'
  have hbufs := h.inv.live.znsZmgmtSend_zrwaBuffer hw hr hin r hr'
  refine ⟨hinv, fun i => ?_⟩
  dsimp only [ZrwaUse.after]
  rw [hbufs i]
  split
  · rw [ZrwaUse.left_empty hr]
    exact h.inv.sizes i
  · exact h.left i

omit hw hr in
theorem UseInv.complete (hw : Wide sp zp) (B : PerfModel τ) (k : Nat) :
    Partial (s.step B (.complete k)) (UseInv sp zp) := by
  intro s' hs'
  obtain ⟨dev, hdev, hs'⟩ := bind_ok.mp hs'
  have hinv := h.inv.step hw B (fun _ he => by cases he) dev hdev
  cases hs'
  refine ⟨hinv, fun i => ?_⟩
  unfold ZnsDevice.step at hdev
  dsimp only [ZrwaUse.after] at hdev ⊢
  cases hop : s.dev.pending[k]? with
  | none =>
    simp only [hop] at hdev
    cases hdev
    exact h.left i
  | some op =>
    simp only [hop] at hdev
    cases hdev
    dsimp only
    split
    · rename_i hi
      rw [ZrwaUse.left_release, ← h.left i]
      simp [releaseInternal, hi, ZnsFtl.setBuffer, ZnsFtl.buffer, bufferRelease]
    · rename_i hi
      rw [← h.left i, releaseInternal_zrwaBuffer_of_ne hi]

/-- One event stops with the assertion exactly if it opens a zone whose history leaves too little. -/
theorem UseInv.step_iff (B : PerfModel τ) {event : ZnsEvent}
    (hon : ∀ req, event = .command req → OnZones zp req) :
    s.step B event ≠ .error reservationBug ↔ KeepsReservation zp s event := by
  have hstep : s.step B event ≠ .error reservationBug ↔ s.dev.step B event ≠ .error reservationBug := by
    unfold ZrwaHistory.step
    cases s.dev.step B event <;> simp [bind, Except.bind, pure, Except.pure]
  rw [hstep]
  cases event with
  | complete i =>
    refine ⟨fun _ => trivial, fun _ he => ?_⟩
    unfold ZnsDevice.step at he
    dsimp only at he
    split at he <;> cases he
  | command req =>
    rw [ne_eq, ZnsDevice.step_command_error]
    cases req with
    | zoneMgmtSend cmd nsecsStart junk =>
      refine ⟨fun _ => trivial, fun _ he => ?_⟩
      have hsend : Avoids (· = reservationBug)
          (znsProcNvmeIoCmd B s.dev.ftl (.zoneMgmtSend cmd nsecsStart junk)) fun _ => True :=
        Avoids.bind znsZmgmtSend_avoids fun _ _ => .ret trivial
      exact hsend.safe _ he rfl
    | rw req =>
      rw [← ne_eq, znsProcRw_stops_iff hw hr h.inv B (hon _ rfl), h.left]
      exact Iff.rfl

end Event

theorem useInv_init (hw : Wide sp zp) (hr : Reserves zp) (perf : τ) (storage : Nat → UInt8) :
    UseInv sp zp { dev := { ftl := znsInitFtl sp zp perf storage } } :=
  ⟨⟨(coverInv_init hw perf storage).live, fun _ => rfl⟩, fun _ => (ZrwaUse.left_empty hr).symm⟩

end Zns

/-- A run of commands and completions in any order does not reach the assertion of
`__zns_write_zrwa`, exactly if each write that opens a zone implicitly comes when the history of the zone
since its last reset leaves `zrwa_size` bytes of its buffer: each earlier implicit open took that many, a
flush takes the bytes of its blocks until its operations are completed, and a close gives nothing back. -/
theorem zrwa_reservation_assert_iff {τ : Type} (B : PerfModel τ) {scfg : SsdConfig} {cfg : ZnsConfig}
    {sp : SsdParams} {zp : ZnsParams} {capacity : Nat}
    (hsp : ssdInitParams scfg capacity 1 = .ok sp) (hzp : znsInitParams cfg sp capacity = .ok zp)
    (hpos : 0 < zp.zrwaSize) (hle : zp.zrwaSize ≤ zp.zrwaBufferSize) (perf : τ)
    (storage : Nat → UInt8) (events : List ZnsEvent)
    (hon : ∀ req, ZnsEvent.command req ∈ events → Zns.OnZones zp req) :
    events.foldlM (ZnsDevice.step B) { ftl := znsInitFtl sp zp perf storage } ≠
        .error (.assertion .znsWriteZrwa) ↔
      Always (Zns.ZrwaHistory.step B) (Zns.KeepsReservation zp)
        { dev := { ftl := znsInitFtl sp zp perf storage } } events := by
  have hw := Zns.wide_of_init hsp hzp
  have hr := Zns.reserves_of_init hzp hpos hle
  have hdev (s : Zns.ZrwaHistory τ) (event : ZnsEvent) :
      (s.step B event).map (·.dev) = s.dev.step B event := by
    unfold Zns.ZrwaHistory.step
    cases s.dev.step B event <;> rfl
  have herror := foldlM_error hdev (l := events) (e := .assertion .znsWriteZrwa)
    (s := { dev := { ftl := znsInitFtl sp zp perf storage } })
  rw [ne_eq, herror]
  refine Partial.ne_error_iff_always (Zns.useInv_init hw hr perf storage) ?_ ?_
  · intro s h event hmem
    cases event with
    | complete k => exact h.complete hw B k
    | command req =>
      have hreq := hon req hmem
      cases req with
      | rw req => exact h.write hw hr B hreq
      | zoneMgmtSend cmd nsecsStart junk => exact h.manage hw hr B hreq
  · intro s h event hmem
    exact h.step_iff hw hr B fun req he => hon req (he ▸ hmem)

/-- Close zone 0. -/
def closeZone : ZnsRequest := .zoneMgmtSend { slba := 0, zsa := .close } 0 0

/-- Zones as in `ZnsConfig.zrwaQuarters`, with a buffer of two random write areas. -/
def ZnsConfig.zrwaTwice : ZnsConfig := { ZnsConfig.zrwaQuarters with zrwaBufferSize := 256 * 1024 }

def ZnsParams.zrwaTwice : ZnsParams := { ZnsParams.zrwaQuarters with zrwaBufferSize := 262144 }

theorem znsInitParams_zrwaTwice :
    znsInitParams .zrwaTwice .znsPrototype (2 ^ 20) = .ok .zrwaTwice := by decide

/-- A write moves the write pointer by a quarter, which takes half of the buffer. After its operation is
completed there is room for two implicit opens. -/
theorem zrwa_reservation_assert_iff_completed :
    [.command openZrwaZone, .command (writeQuarter 256), .complete 0, .command closeZone,
      .command (writeQuarter 256), .command closeZone, .command (writeQuarter 256)].foldlM
      (ZnsDevice.step .instant) { ftl := znsInitFtl .znsPrototype .zrwaTwice () fun _ => 0 } ≠
      .error (.assertion .znsWriteZrwa) :=
  (zrwa_reservation_assert_iff .instant ssdInitParams_zrwaZones znsInitParams_zrwaTwice (by decide)
    (by decide) () (fun _ => 0) _
    (by simp [openZrwaZone, closeZone, writeQuarter, Zns.OnZones, Zns.InNs, ZnsParams.zrwaTwice,
      ZnsParams.zrwaQuarters])).mpr (by decide +kernel)

/-- The second write to the closed zone finds nothing left. -/
theorem zrwa_reservation_assert_reached : ¬
    ([.command openZrwaZone, .command closeZone, .command writeHalfZone, .command closeZone,
      .command writeHalfZone].foldlM (ZnsDevice.step .instant)
      { ftl := znsInitFtl .znsPrototype .zrwaZones () fun _ => 0 } ≠ .error (.assertion .znsWriteZrwa)) := by
  decide +kernel

end Nvmev
