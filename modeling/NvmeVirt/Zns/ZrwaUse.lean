import NvmeVirt.Zns.Coverage
import NvmeVirt.Zns.Refusal

/-!
# What the commands take from the ZRWA buffers

A write to a zone with a random write area takes `zrwa_size` bytes of the buffer of the zone if it opens
the zone, and the bytes of its implicit flush: those of the blocks by which it moves the write pointer.
A reset of the zone refills the buffer. No other command changes it.
-/

namespace Nvmev

open CInt Function Outcome

namespace Zns

variable {τ : Type} {sp : SsdParams} {zp : ZnsParams} {z z' : ZnsFtl τ} {zid i : Nat}

/-- A configuration with a random write area that fits its buffer. The fields are 32 bits wide. -/
structure Reserves (zp : ZnsParams) : Prop where
  pos : 0 < zp.zrwaSize
  le : zp.zrwaSize ≤ zp.zrwaBufferSize
  bufferLt : zp.zrwaBufferSize < 2 ^ 32
  fgLt : zp.lbasPerZrwafg < 2 ^ 32

theorem reserves_of_init {cfg : ZnsConfig} {capacity : Nat} (hzp : znsInitParams cfg sp capacity = .ok zp)
    (hpos : 0 < zp.zrwaSize) (hle : zp.zrwaSize ≤ zp.zrwaBufferSize) : Reserves zp := by
  unfold znsInitParams at hzp
  simp only [Outcome.bind_ok] at hzp
  obtain ⟨_, -, _, -, _, -, hzp⟩ := hzp
  cases hzp
  exact ⟨hpos, hle, u32_lt _, u32_lt _⟩

/-! ## Allocations -/

/-- An allocation in a buffer of fewer than 2^32 bytes. -/
theorem zrwaBufferAllocate_cases (hsize : (z.zrwaBuffer zid).size < 2 ^ 32) {size : Nat} :
    Partial (zrwaBufferAllocate z zid size) fun r =>
      (r.1 = 0 ∧ r.2 = z) ∨
      (r.1 = size ∧ 0 < size ∧ size < 2 ^ 32 ∧ size ≤ (z.zrwaBuffer zid).remaining ∧
        r.2 = allocated z (.zrwaBuffer zid) size) := by
  refine zrwaBufferAllocate_eq.mono fun r hr => ?_
  obtain ⟨buf, ha, hr⟩ := hr
  have hle : size ≤ (z.zrwaBuffer zid).size := (bufferAllocate_eq ha).1
  obtain ⟨hgot, hroom, rfl⟩ | ⟨hgot, -, rfl⟩ := bufferAllocate_cases (by omega) ha
  · by_cases hpos : 0 < size
    · exact .inr ⟨hgot, hpos, by omega, hroom, hr⟩
    · obtain rfl : size = 0 := by omega
      refine .inl ⟨hgot, hr.trans ?_⟩
      exact setBuffer_self (.zrwaBuffer zid)
  · exact .inl ⟨hgot, hr.trans (setBuffer_self (.zrwaBuffer zid))⟩

theorem allocated_zrwaBuffer_self (bytes : Nat) :
    ((allocated z (.zrwaBuffer zid) bytes).zrwaBuffer zid).remaining =
      (z.zrwaBuffer zid).remaining - bytes := by
  simp [allocated, ZnsFtl.setBuffer, ZnsFtl.buffer]

theorem allocated_zrwaBuffer_of_ne (hi : i ≠ zid) (bytes : Nat) :
    (allocated z (.zrwaBuffer zid) bytes).zrwaBuffer i = z.zrwaBuffer i := by
  simp [allocated, ZnsFtl.setBuffer, hi]

/-- From `z` to `z'` the ZRWA buffer of zone `zid` gets `bytes` bytes less, and no other one changes. -/
structure Taken (zid bytes : Nat) (z z' : ZnsFtl τ) : Prop where
  self : (z'.zrwaBuffer zid).remaining + bytes = (z.zrwaBuffer zid).remaining
  others : ∀ i ≠ zid, z'.zrwaBuffer i = z.zrwaBuffer i

theorem Taken.of_eq (h : z'.zrwaBuffer = z.zrwaBuffer) : Taken zid 0 z z' :=
  ⟨by rw [h, Nat.add_zero], fun i _ => by rw [h]⟩

theorem Taken.trans {z'' : ZnsFtl τ} {n m : Nat} (h : Taken zid n z z') (h' : Taken zid m z' z'') :
    Taken zid (n + m) z z'' := by
  have h1 := h.self
  have h2 := h'.self
  exact ⟨by omega, fun i hi => (h'.others i hi).trans (h.others i hi)⟩

theorem taken_allocated {bytes : Nat} (hroom : bytes ≤ (z.zrwaBuffer zid).remaining) :
    Taken zid bytes z (allocated z (.zrwaBuffer zid) bytes) := by
  refine ⟨?_, fun i hi => allocated_zrwaBuffer_of_ne hi bytes⟩
  rw [allocated_zrwaBuffer_self]
  omega

/-! ## A write to a zone with a random write area -/

/-- The bytes that the checks take: those of the reservation, if they open the zone. -/
def reserved (zp : ZnsParams) (z : ZnsFtl τ) (zid slba nrLba : Nat) : Nat :=
  if (z.zoneDescs zid).state = .closed ∧ InWindow z zid slba nrLba then zp.zrwaSize else 0

section Write

variable (h : Counters zp.nrZones z) (hzp : z.zp = zp) (hz : zid < zp.nrZones)
  (hsize : (z.zrwaBuffer zid).size < 2 ^ 32)

include h hzp hz hsize

/-- The checks of a write that goes on: they keep the write pointer, and take the reservation if they
open the zone. -/
theorem zrwaChecks_taken (hv : (z.zoneDescs zid).zrwav = true) (slba nrLba : Nat) :
    Partial (zrwaChecks z zid slba nrLba) fun r =>
      Taken zid (reserved zp z zid slba nrLba) z r.2 ∧ (r.1 ≠ none → r.2.zoneDescs = z.zoneDescs) ∧
      (r.1 = none → InWindow z zid slba nrLba ∧ r.2.ssd.sp = z.ssd.sp ∧ r.2.zp = z.zp ∧
        (r.2.zoneDescs zid).wp = (z.zoneDescs zid).wp ∧
        (r.2.zrwaBuffer zid).size = (z.zrwaBuffer zid).size) := by
  unfold Nvmev.zrwaChecks reserved
  simp only []
  split
  · rename_i hunit
    rw [if_neg fun hc => hunit hc.2.unit]
    exact .ret ⟨.of_eq rfl, fun _ => rfl, fun hc => absurd hc (Option.some_ne_none _)⟩
  rename_i hunit
  split
  · rename_i hb
    rw [if_neg fun hc => by rw [hc.2.boundary] at hb; cases hb]
    exact .ret ⟨.of_eq rfl, fun _ => rfl, fun hc => absurd hc (Option.some_ne_none _)⟩
  rename_i hb
  split
  · rename_i hwin
    have hge (hc : InWindow z zid slba nrLba) := hc.ge
    have hle (hc : InWindow z zid slba nrLba) := hc.le
    rw [if_neg fun hc => by have := hge hc.2; have := hle hc.2; omega]
    exact .ret ⟨.of_eq rfl, fun _ => rfl, fun hc => absurd hc (Option.some_ne_none _)⟩
  rename_i hwin
  have hin (hact : (z.zoneDescs zid).state.isActive = true) : InWindow z zid slba nrLba :=
    ⟨hact, by simpa using hunit, by simpa using hb, by omega, by omega⟩
  split <;> rename_i hs
  · have hin := hin (by rw [hs]; rfl)
    obtain ⟨z₁, he, hssd, hzp₁, hds, -⟩ := h.reopen zrwaAdvance True hz hs .openedImpl rfl
    have hbuf : z₁.zrwaBuffer = z.zrwaBuffer := acquire_zrwaBuffer_of_eq he
    rw [if_pos ⟨hs, hin⟩]
    simp only [openZrwa, he]
    have hsize₁ : (z₁.zrwaBuffer zid).size < 2 ^ 32 := by rwa [hbuf]
    refine Partial.bind (zrwaBufferAllocate_cases hsize₁) fun r hr => ?_
    refine Partial.bind .ensure fun _ hgot => .ret ⟨?_, fun hc => absurd rfl hc, fun _ => ?_⟩
    · obtain ⟨hzero, -⟩ | ⟨-, -, -, hroom, hr⟩ := hr
      · exact absurd hzero hgot
      · rw [hzp₁, hzp] at hroom hr
        have ht := taken_allocated hroom
        rw [← hr] at ht
        refine ⟨?_, fun i hi => ?_⟩
        · rw [changeZoneState_zrwaBuffer, ht.self, hbuf]
        · rw [changeZoneState_zrwaBuffer, ht.others i hi, hbuf]
    · obtain ⟨hzero, -⟩ | ⟨-, -, -, -, hr⟩ := hr
      · exact absurd hzero hgot
      · refine ⟨hin, ?_, ?_, ?_, ?_⟩
        · simp [hr, allocated, hssd]
        · simp [hr, allocated, hzp₁]
        · simp [hr, hds]
        · simp [hr, allocated, ZnsFtl.setBuffer, ZnsFtl.buffer, hbuf]
  · rw [h.empty zid hz hs] at hv
    cases hv
  all_goals rw [if_neg fun hc => by rw [hc.1] at hs; cases hs]
  · exact .ret ⟨.of_eq rfl, fun _ => rfl, fun _ => ⟨hin (by rw [hs]; rfl), rfl, rfl, rfl, rfl⟩⟩
  · exact .ret ⟨.of_eq rfl, fun _ => rfl, fun _ => ⟨hin (by rw [hs]; rfl), rfl, rfl, rfl, rfl⟩⟩
  all_goals exact .ret ⟨.of_eq rfl, fun _ => rfl, fun hc => absurd hc (Option.some_ne_none _)⟩

end Write

/-- The implicit flush: the bytes of the blocks by which it moves the write pointer. -/
theorem flushImplicit_taken (hsize : (z.zrwaBuffer zid).size < 2 ^ 32) {flush : Nat}
    (hflush : flush < 2 ^ 55) (hwp : (z.zoneDescs zid).wp < 2 ^ 63) :
    Partial (flushImplicit z zid flush) fun r => (z.zoneDescs zid).wp ≤ (r.2.zoneDescs zid).wp ∧
      Taken zid (((r.2.zoneDescs zid).wp - (z.zoneDescs zid).wp) * 512) z r.2 := by
  unfold Nvmev.flushImplicit
  rw [lbaToByte_of_lt hflush]
  split
  · refine Partial.bind (zrwaBufferAllocate_cases hsize) fun r hr => .ret ?_
    obtain ⟨hzero, rfl⟩ | ⟨hgot, hpos, hlt, hroom, hr⟩ := hr
    · rw [if_pos hzero]
      refine ⟨Nat.le_refl _, ?_⟩
      rw [Nat.sub_self, Nat.zero_mul]
      exact .of_eq rfl
    · rw [if_neg (by omega)]
      have hmoved : ((increaseWritePtr r.2 zid flush).zoneDescs zid).wp =
          (z.zoneDescs zid).wp + flush := by
        rw [(increaseWritePtr_zone r.2 zid zid flush).2, if_pos rfl, hr, allocated_zoneDescs,
          u32_of_lt (by omega), u64_of_lt (by omega)]
      dsimp only
      rw [hmoved, Nat.add_sub_cancel_left]
      refine ⟨Nat.le_add_right _ _, ?_⟩
      have ht := taken_allocated hroom
      rw [← hr] at ht
      exact ⟨by rw [increaseWritePtr_zrwaBuffer, ht.self],
        fun i hi => by rw [increaseWritePtr_zrwaBuffer, ht.others i hi]⟩
  · refine .ret ⟨Nat.le_refl _, ?_⟩
    rw [Nat.sub_self, Nat.zero_mul]
    exact .of_eq rfl

/-- The number of blocks to flush is far below 2^55: the last block is in the zone of the write pointer. -/
theorem nrLbasFlush_lt (hw : Wide sp zp) (hr : Reserves zp) (hzp : z.zp = zp) {prevWp elba : Nat}
    (hge : prevWp ≤ elba) (hlt : elba < prevWp + 2 ^ 23) (helba : elba < 2 ^ 56) :
    Partial (nrLbasFlush z zid prevWp elba) fun flush => flush < 2 ^ 55 := by
  have hzr := hw.zrwaLt
  have hfg := hr.fgLt
  unfold nrLbasFlush
  simp only [hzp]
  rw [u64_of_lt (n := prevWp + zp.lbasPerZrwa) (by omega)]
  split
  · refine Partial.bind .ensure fun _ hne => .ret ?_
    have hup := divRoundUp_mul_lt (n := elba - (prevWp + zp.lbasPerZrwa) + 1) (Nat.pos_of_ne_zero hne)
    refine lt_of_le_of_lt (Nat.mod_le _ _) ?_
    omega
  split
  · refine .ret ?_
    rw [sub64_of_le hge (by omega), u64_of_lt (by omega)]
    omega
  · exact .ret (by decide)

/-- A write to a zone with a random write area takes the reservation, if it opens the zone, and the bytes
of the blocks by which it moves the write pointer. -/
theorem znsWriteZrwa_taken (hw : Wide sp zp) (hr : Reserves zp) (hc : Counters zp.nrZones z)
    (h : Placed sp zp z) (B : PerfModel τ) {req : RwRequest} (hin : InNs zp req.cmd.slba)
    (hz : lbaToZone z req.cmd.slba = zid) (hv : (z.zoneDescs zid).zrwav = true)
    (hsize : (z.zrwaBuffer zid).size = zp.zrwaBufferSize) :
    Partial (znsWriteZrwa B z req) fun o =>
      Taken zid (reserved zp z zid req.cmd.slba req.cmd.nrLbas +
        ((o.ftl.zoneDescs zid).wp - (z.zoneDescs zid).wp) * 512) z o.ftl := by
  obtain ⟨-, hzn, hge, hlt⟩ := h.zone_of_inNs hw hin
  have hn := nrLbas_pos req.cmd
  have hn' := nrLbas_le req.cmd
  have hlba := InNs.lt_wide hw hin
  have hlbas := hw.zoneLbas_bounds
  have hbuf := hr.bufferLt
  rw [hz] at hzn hge hlt
  unfold Nvmev.znsWriteZrwa
  simp only [hz]
  refine Partial.bind (zrwaChecks_taken hc h.zp_eq hzn (by omega) hv _ _) fun r hr' => ?_
  obtain ⟨ht, hfail, hpass⟩ := hr'
  split
  · rename_i status z₁
    refine .ret ?_
    have hds := hfail nofun
    dsimp only at hds ht ⊢
    rw [hds, Nat.sub_self, Nat.zero_mul]
    exact ht
  rename_i z₁
  obtain ⟨hwin, hsp₁, hzp₁, hwp₁, hsize₁⟩ := hpass rfl
  dsimp only at ht hsp₁ hzp₁ hwp₁ hsize₁
  -- The write starts at or after the write pointer, and ends in its zone.
  obtain ⟨hu, hend⟩ := h.range_in_zone hw hin hn hn' hwin.boundary
  have hstart := (h.zone zid hzn).2.2 hv
  rw [(h.zone zid hzn).1.1] at hstart
  have hfrom := hwin.ge
  rw [hz] at hend
  have hbound : Partial (nrLbasFlush z₁ zid (z.zoneDescs zid).wp
      (u64 (req.cmd.slba + req.cmd.nrLbas - 1))) fun flush => flush < 2 ^ 55 :=
    nrLbasFlush_lt hw hr (hzp₁.trans h.zp_eq) (by omega) (by omega) (by omega)
  have hsize₁ : (z₁.zrwaBuffer zid).size < 2 ^ 32 := by omega
  refine Partial.bind hbound fun flush hflush => ?_
  refine Partial.bind (flushImplicit_taken hsize₁ hflush (by omega)) fun r hr' => ?_
  obtain ⟨-, hmoved⟩ := hr'
  rw [hwp₁] at hmoved
  have htaken := ht.trans hmoved
  obtain ⟨refused, z₂⟩ := r
  simp only []
  split
  · exact .ret htaken
  · exact .ret ⟨htaken.self, htaken.others⟩

/-! ## The other commands -/

/-- The completion of an operation of another buffer. -/
theorem releaseInternal_zrwaBuffer_of_ne {op : InternalOp} (h : op.writeBuffer ≠ .zrwaBuffer i) :
    (releaseInternal z op).zrwaBuffer i = z.zrwaBuffer i := by
  unfold releaseInternal
  generalize op.writeBuffer = ref at h ⊢
  cases ref with
  | writeBuffer => rfl
  | zoneWriteBuffer j => rfl
  | zrwaBuffer j =>
    have hi : i ≠ j := fun hi => h (by rw [hi])
    simp [ZnsFtl.setBuffer, hi]

/-- The zones at which `zns_zmgmt_send` aims an action. The loop of `select_all` looks its zones up from
the 32-bit product of `zone_to_slba`. -/
def aimedAt (z : ZnsFtl τ) (cmd : ZoneMgmtSend) : List Nat :=
  if cmd.selectAll then (List.range z.zp.nrZones).map fun zid => lbaToZone z (zoneToSlba z zid)
  else [lbaToZone z cmd.slba]

/-- A reset of a zone that is neither read-only nor offline refills its buffer. -/
theorem reset_refills (hbuf : z.zp.zrwaBufferSize ≠ 0) (hro : (z.zoneDescs zid).state ≠ .readOnly)
    (hoff : (z.zoneDescs zid).state ≠ .offline) (i : Nat) :
    (zmgmtSendResetZone z zid).2.zrwaBuffer i =
      if i = zid then bufferRefill (z.zrwaBuffer i) else z.zrwaBuffer i := by
  have hreset (z₁ : ZnsFtl τ) (hzp : z₁.zp = z.zp) (he : z₁.zrwaBuffer = z.zrwaBuffer) :
      (resetZone z₁ zid).zrwaBuffer i =
        if i = zid then bufferRefill (z.zrwaBuffer i) else z.zrwaBuffer i := by
    unfold resetZone
    dsimp only
    rw [if_pos (by simpa [hzp] using hbuf)]
    by_cases hi : i = zid
    · subst hi
      simp [ZnsFtl.setBuffer, ZnsFtl.setDesc, he]
    · simp [ZnsFtl.setBuffer, ZnsFtl.setDesc, he, hi]
  cases hs : (z.zoneDescs zid).state with
  | readOnly => exact absurd hs hro
  | offline => exact absurd hs hoff
  | _ =>
    simp only [zmgmtSendResetZone, hs]
    exact hreset _ (by simp) (by simp)

/-- One action. -/
theorem Live.zmgmtSend_zrwaBuffer (hr : Reserves zp) (h : Live sp zp z) {junk slba : Nat}
    (hz : lbaToZone z slba < zp.nrZones) (action : ZoneSendAction) (option : Bool) :
    Partial (zmgmtSend z junk slba action option) fun r => ∀ i, r.2.zrwaBuffer i =
      if action = .reset ∧ i = lbaToZone z slba then bufferRefill (z.zrwaBuffer i)
      else z.zrwaBuffer i := by
  have hpos := hr.pos
  have hle := hr.le
  by_cases hact : action = .reset
  · subst hact
    refine .ret fun i => ?_
    have hbuf : z.zp.zrwaBufferSize ≠ 0 := by rw [h.placed.zp_eq]; omega
    simpa using reset_refills hbuf (h.alive _ hz).1 (h.alive _ hz).2 i
  · refine (Zns.zmgmtSend_zrwaBuffer hact).mono fun r hr i => ?_
    rw [hr, if_neg fun hc => hact hc.1]

/-- A management command refills the buffers of the zones that it resets, and changes no other one. -/
theorem Live.znsZmgmtSend_zrwaBuffer (hw : Wide sp zp) (hr : Reserves zp) (h : Live sp zp z) {junk : Nat}
    {cmd : ZoneMgmtSend} {nsecsStart : Nat} (hin : cmd.selectAll = false → InNs zp cmd.slba) :
    Partial (znsZmgmtSend z junk cmd nsecsStart) fun r => ∀ i, r.2.zrwaBuffer i =
      if cmd.zsa = .reset ∧ i ∈ aimedAt z cmd then bufferRefill (z.zrwaBuffer i) else z.zrwaBuffer i := by
  have hzp := h.placed.zp_eq
  unfold Nvmev.znsZmgmtSend aimedAt
  split
  · refine Partial.bind (Q := fun z' => Live sp zp z' ∧ ∀ i, z'.zrwaBuffer i =
      if cmd.zsa = .reset ∧ i ∈ (List.range z.zp.nrZones).map fun zid => lbaToZone z (zoneToSlba z zid)
      then bufferRefill (z.zrwaBuffer i) else z.zrwaBuffer i) ?_ fun z' h' => .ret h'.2
    -- After `k` turns the buffers of the zones that they aimed at are full, if the action is to reset.
    refine Partial.forRange (I := fun k z' => Live sp zp z' ∧ ∀ i, z'.zrwaBuffer i =
      if cmd.zsa = .reset ∧ i ∈ (List.range k).map fun zid => lbaToZone z (zoneToSlba z zid)
      then bufferRefill (z.zrwaBuffer i) else z.zrwaBuffer i) ⟨h, fun i => by simp⟩ ?_
    rintro k hk z' ⟨hlive, hbufs⟩
    rw [hzp] at hk
    have hlt : zoneToSlba z' k < 2 ^ 63 := (u32_lt _).trans (by decide)
    have hzone : lbaToZone z' (zoneToSlba z' k) < zp.nrZones := lbaToZone_zoneToSlba_lt hk hw.count
    have hsame : lbaToZone z' (zoneToSlba z' k) = lbaToZone z (zoneToSlba z k) := by
      unfold lbaToZone zoneToSlba zoneLbas
      rw [hlive.placed.sp_eq, hlive.placed.zp_eq, h.placed.sp_eq, hzp]
    refine Partial.bind (Q := fun r => Live sp zp r.2 ∧ ∀ i, r.2.zrwaBuffer i =
      if cmd.zsa = .reset ∧ i = lbaToZone z' (zoneToSlba z' k) then bufferRefill (z'.zrwaBuffer i)
      else z'.zrwaBuffer i) (fun r hr' => ?_) fun r hr' => .ret ⟨hr'.1, fun i => ?_⟩
    · exact ⟨(hlive.zmgmtSend_zone hw hlt hzone cmd.zsa cmd.zsaso r hr').1,
        hlive.zmgmtSend_zrwaBuffer hr hzone cmd.zsa cmd.zsaso r hr'⟩
    · rw [hr'.2 i, hbufs i, hsame]
      simp only [List.range_succ, List.map_append, List.mem_append]
      by_cases hact : cmd.zsa = .reset
      · by_cases hi : i = lbaToZone z (zoneToSlba z k)
        · simp only [hact, hi, true_and, List.map_cons, List.map_nil, List.mem_singleton, or_true, if_true]
          split <;> rfl
        · simp [hact, hi]
      · simp [hact]
  · rename_i hsel
    have hz := (h.placed.zone_of_inNs hw (hin (by simpa using hsel))).2.1
    refine Partial.bind (h.zmgmtSend_zrwaBuffer hr hz cmd.zsa cmd.zsaso) fun r hr' => .ret fun i => ?_
    simp only [List.mem_singleton]
    exact hr' i

/-- The command is a write to a zone with a random write area. -/
def WritesZrwa (z : ZnsFtl τ) (req : RwRequest) : Prop :=
  (req.cmd.opcode = .write ∨ req.cmd.opcode = .zoneAppend) ∧
    (z.zoneDescs (lbaToZone z req.cmd.slba)).zrwav = true

instance (z : ZnsFtl τ) : DecidablePred (WritesZrwa z) := fun _ => by unfold WritesZrwa; infer_instance

/-- A read or write command. -/
theorem Live.rw_taken (hw : Wide sp zp) (hr : Reserves zp) (h : Live sp zp z)
    (hsizes : BufferSizes (· = zp.zrwaBufferSize) z) (B : PerfModel τ) {req : RwRequest}
    (hin : InNs zp req.cmd.slba) :
    Partial (znsProcNvmeIoCmd B z (.rw req)) fun z' =>
      (WritesZrwa z req → Taken (lbaToZone z req.cmd.slba)
        (reserved zp z (lbaToZone z req.cmd.slba) req.cmd.slba req.cmd.nrLbas +
          ((z'.zoneDescs (lbaToZone z req.cmd.slba)).wp -
            (z.zoneDescs (lbaToZone z req.cmd.slba)).wp) * 512) z z') ∧
      (¬ WritesZrwa z req → z'.zrwaBuffer = z.zrwaBuffer) := by
  by_cases hop : req.cmd.opcode = .write ∨ req.cmd.opcode = .zoneAppend
  · rw [znsProcRw_write B hop]
    unfold Nvmev.znsWrite
    rw [h.placed.lpnToZone_eq hw]
    split
    · rename_i hv
      refine Partial.bind (znsWritePlain_zrwaBuffer B req) fun o ho => .ret ⟨fun hc => ?_, fun _ => ho⟩
      rw [hc.2] at hv
      cases hv
    · rename_i hv
      have hv : (z.zoneDescs (lbaToZone z req.cmd.slba)).zrwav = true := by simpa using hv
      refine Partial.bind (znsWriteZrwa_taken hw hr h.counters h.placed B hin rfl hv (hsizes _))
        fun o ho => .ret ⟨fun _ => ho, fun hc => absurd ⟨hop, hv⟩ hc⟩
  · exact znsProcRw_partial B (fun h => absurd h hop) fun _ => ⟨fun hc => absurd hc.1 hop, fun _ => rfl⟩

end Zns

end Nvmev
