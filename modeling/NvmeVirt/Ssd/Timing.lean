import NvmeVirt.Conv.Io
import NvmeVirt.Ssd.Channel
import NvmeVirt.Zns.ReadWrite

/-!
# NAND timing

`ssd_advance_nand`, `ssd_advance_pcie`, `ssd_advance_write_buffer` and `ssd_next_idle_time` (`ssd.c`): the
clocks of the dies and the channels of the SSDs of a namespace, which share one PCIe link. `nandPerf` is
this model as a `PerfModel`, so that `convFlush` and `znsFlush` run on it.

`Timing` keeps a record of the run: the calls with their times, and whether a sum of 64 bits was wrapped.

`nand_timing_causal`: without a wrapped sum, the clocks of the dies do not go back, the activities of a
die follow one another, a command does not complete before its start time, and a flush waits for every
write, erase and nop before it.
-/

namespace Nvmev

open CInt Function Outcome

/-- `struct ssdparams`: what the timing of one SSD depends on. The read latencies are by cell type. -/
structure NandParams where
  nchs : Nat
  lunsPerCh : Nat
  pgsPerFlashpg : Nat
  cellMode : Nat
  pg4kbRdLat : Nat → Nat
  pgRdLat : Nat → Nat
  pgWrLat : Nat
  blkErLat : Nat
  maxChXferSize : Nat
  fwWbufLat0 : Nat
  fwWbufLat1 : Nat

/-- The dies and the channels of one SSD: `next_lun_avail_time` by channel and die. -/
structure NandSsd where
  np : NandParams
  nextLunAvailTime : Nat → Nat → Nat
  ch : Nat → ChannelModel

/-- A call of `ssd_advance_nand` for part `part`: `cmd_stime`, the time it returns, and the begin and the
end of its activity on the die, if it has one. -/
structure NandCall where
  part : Nat
  cmd : NandCmd
  stime : Nat
  completed : Nat
  activity : Option (Nat × Nat)

/-- The SSDs of the partitions of a namespace, the PCIe link they share, the clock readings to come from
`clock tick` on, and the record of the run. -/
structure Timing where
  nrParts : Nat
  ssds : Nat → NandSsd
  pcie : ChannelModel
  clock : Nat → Nat
  tick : Nat := 0
  wrapped : Bool := false
  calls : List NandCall := []

namespace Timing

variable (t : Timing)

/-- `next_lun_avail_time` of a die. -/
def avail (part ch lun : Nat) : Nat := (t.ssds part).nextLunAvailTime ch lun

/-- A reading of the clock: `cpu_clock` or `local_clock`. -/
def readClock : Nat × Timing := (t.clock t.tick, { t with tick := t.tick + 1 })

/-- A 64-bit sum of times. -/
def addTime (a b : Nat) : Nat × Timing :=
  (u64 (a + b), { t with wrapped := t.wrapped || decide (2 ^ 64 ≤ a + b) })

/-- `chmodel_request` on a channel model that is apart from `t`. -/
def request (ch : ChannelModel) (requestTime length : Nat) : Except Bug (Nat × ChannelModel × Timing) := do
  let (curTime, t) := t.readClock
  let (totalLatency, ch) ← chmodelLatency ch curTime requestTime length
  let (time, t) := t.addTime requestTime totalLatency
  pure (time, ch, t)

/-- `ssd_advance_pcie`. -/
def ssdAdvancePcie (requestTime length : Nat) : Except Bug (Nat × Timing) := do
  let (time, pcie, t) ← t.request t.pcie requestTime length
  pure (time, { t with pcie })

/-- `chmodel_request(ch->perf_model, …)`. -/
def channelRequest (part ch requestTime length : Nat) : Except Bug (Nat × Timing) := do
  let (time, model, t) ← t.request ((t.ssds part).ch ch) requestTime length
  pure (time, { t with
    ssds := update t.ssds part { t.ssds part with ch := update (t.ssds part).ch ch model } })

/-- `ssd_advance_write_buffer`, of part `part`. -/
def ssdAdvanceWriteBuffer (part requestTime length : Nat) : Except Bug (Nat × Timing) := do
  let np := (t.ssds part).np
  let (nsecsLatest, t) := t.addTime requestTime np.fwWbufLat0
  let (nsecsLatest, t) := t.addTime nsecsLatest (np.fwWbufLat1 * divRoundUp length 4096)
  t.ssdAdvancePcie nsecsLatest length

/-- `completed_time` of a chunk: with `interleave_pci_dma`, its transfer over PCIe overlaps with the next one
over the channel. -/
def completedTime (interleavePciDma : Bool) (chnlEtime xferSize : Nat) : Except Bug (Nat × Timing) :=
  if interleavePciDma then t.ssdAdvancePcie chnlEtime xferSize else pure (chnlEtime, t)

/-- The loop of a read over the chunks of its transfer. It leaves `chnl_etime` and `completed_time`, which
have no value before the first turn. -/
def readChunks (part ch : Nat) (interleavePciDma : Bool) :
    Nat → Nat → Nat → Option (Nat × Nat) → Timing → Except Bug (Option (Nat × Nat) × Timing)
  | 0, remaining, _, times, t =>
    if remaining = 0 then pure (times, t) else .error (.endlessLoop .ssdAdvanceNand)
  | fuel + 1, remaining, chnlStime, times, t =>
    if remaining = 0 then pure (times, t)
    else do
      let xferSize := min remaining (t.ssds part).np.maxChXferSize
      let (chnlEtime, t) ← t.channelRequest part ch chnlStime xferSize
      let (completedTime, t) ← t.completedTime interleavePciDma chnlEtime xferSize
      readChunks part ch interleavePciDma fuel (remaining - xferSize) chnlEtime
        (some (chnlEtime, completedTime)) t

/-- The command leaves the clock of its die at `finish` and returns `completed`. -/
def finish (part : Nat) (cmd : NandCmd) (stime start finish completed : Nat) : Nat × Timing :=
  (completed, { t with
    ssds := update t.ssds part { t.ssds part with
      nextLunAvailTime := update (t.ssds part).nextLunAvailTime cmd.ppa.ch
        (update ((t.ssds part).nextLunAvailTime cmd.ppa.ch) cmd.ppa.lun finish) }
    calls := t.calls ++ [⟨part, cmd, stime, completed, some (start, finish)⟩] })

/-- The `switch` of `ssd_advance_nand`, for a die that is free at `start`. -/
def advanceDie (part : Nat) (cmd : NandCmd) (stime start cell : Nat) : Except Bug (Nat × Timing) :=
  let np := (t.ssds part).np
  match cmd.cmd with
  | .read => do
    let (nandEtime, t) := t.addTime start (if cmd.xferSize = 4096 then np.pg4kbRdLat cell else np.pgRdLat cell)
    let (times, t) ← readChunks part cmd.ppa.ch cmd.interleavePciDma cmd.xferSize cmd.xferSize nandEtime none t
    match times with
    | none => .error (.uninitialized .ssdAdvanceNand)
    | some (chnlEtime, completedTime) => pure (t.finish part cmd stime start chnlEtime completedTime)
  | .write => do
    let (chnlEtime, t) ← t.channelRequest part cmd.ppa.ch start cmd.xferSize
    let (nandEtime, t) := t.addTime chnlEtime np.pgWrLat
    pure (t.finish part cmd stime start nandEtime nandEtime)
  | .erase =>
    let (nandEtime, t) := t.addTime start np.blkErLat
    pure (t.finish part cmd stime start nandEtime nandEtime)
  | .nop => pure (t.finish part cmd stime start start start)

/-- `ssd_advance_nand`, of the SSD of part `part`. -/
def ssdAdvanceNand (part : Nat) (cmd : NandCmd) : Except Bug (Nat × Timing) := do
  Outcome.ensure (part < t.nrParts) (.outOfBounds .ssdAdvanceNand)
  let (cmdStime, t) := if cmd.stime = 0 then t.readClock else (cmd.stime, t)
  if cmd.ppa = unmappedPpa then
    pure (cmdStime, { t with calls := t.calls ++ [⟨part, cmd, cmdStime, cmdStime, none⟩] })
  else
    let np := (t.ssds part).np
    Outcome.ensure (cmd.ppa.ch < np.nchs ∧ cmd.ppa.lun < np.lunsPerCh) (.outOfBounds .ssdAdvanceNand)
    -- `get_cell`
    Outcome.ensure (np.pgsPerFlashpg ≠ 0 ∧ np.cellMode ≠ 0) (.divideByZero .ssdAdvanceNand)
    let cell := cmd.ppa.pg / np.pgsPerFlashpg % np.cellMode
    t.advanceDie part cmd cmdStime (max (t.avail part cmd.ppa.ch cmd.ppa.lun) cmdStime) cell

/-- `ssd_next_idle_time`, of the SSD of part `part`. -/
def ssdNextIdleTime (part : Nat) : Nat × Timing :=
  let (latest, t) := t.readClock
  let np := (t.ssds part).np
  ((List.range np.nchs).foldl (fun latest i =>
    (List.range np.lunsPerCh).foldl (fun latest j => max latest (t.avail part i j)) latest) latest, t)

/-- The constants and the channels are those of a device that is initialized. -/
structure Ok (t : Timing) : Prop where
  pcie : RingOk t.pcie
  ch : ∀ part ch, RingOk ((t.ssds part).ch ch)
  maxChXferSize : ∀ part, 0 < (t.ssds part).np.maxChXferSize
  cell : ∀ part, (t.ssds part).np.pgsPerFlashpg ≠ 0 ∧ (t.ssds part).np.cellMode ≠ 0

/-- What the operations below a command do: they move the channels and the clock, and keep the constants,
the dies and the record. -/
structure Quiet (t t' : Timing) : Prop where
  ok : Ok t → Ok t'
  nrParts : t'.nrParts = t.nrParts
  np : ∀ part, (t'.ssds part).np = (t.ssds part).np
  avail : ∀ part ch lun, t'.avail part ch lun = t.avail part ch lun
  calls : t'.calls = t.calls
  wrapped : t'.wrapped = false → t.wrapped = false

section Operations

variable {t t₁ t₂ : Timing}

theorem Quiet.refl (t : Timing) : Quiet t t := ⟨id, rfl, fun _ => rfl, fun _ _ _ => rfl, rfl, id⟩

theorem Quiet.trans (h₁ : Quiet t t₁) (h₂ : Quiet t₁ t₂) : Quiet t t₂ where
  ok := h₂.ok ∘ h₁.ok
  nrParts := h₂.nrParts.trans h₁.nrParts
  np part := (h₂.np part).trans (h₁.np part)
  avail part ch lun := (h₂.avail part ch lun).trans (h₁.avail part ch lun)
  calls := h₂.calls.trans h₁.calls
  wrapped := h₁.wrapped ∘ h₂.wrapped

theorem quiet_readClock (t : Timing) : Quiet t t.readClock.2 :=
  ⟨fun h => ⟨h.pcie, h.ch, h.maxChXferSize, h.cell⟩, rfl, fun _ => rfl, fun _ _ _ => rfl, rfl, id⟩

theorem quiet_addTime (t : Timing) (a b : Nat) : Quiet t (t.addTime a b).2 :=
  ⟨fun h => ⟨h.pcie, h.ch, h.maxChXferSize, h.cell⟩, rfl, fun _ => rfl, fun _ _ _ => rfl, rfl,
    fun h => (Bool.or_eq_false_iff.mp h).1⟩

/-- A sum that is not wrapped is not before its first term. -/
theorem le_addTime {a b : Nat} (h : (t.addTime a b).2.wrapped = false) : a ≤ (t.addTime a b).1 := by
  have hlt : ¬ 2 ^ 64 ≤ a + b := of_decide_eq_false (Bool.or_eq_false_iff.mp h).2
  change a ≤ u64 (a + b)
  rw [u64_of_lt (Nat.lt_of_not_le hlt)]
  exact Nat.le_add_right a b

theorem request_spec (t : Timing) (ch : ChannelModel) (requestTime length : Nat) :
    Spec (RingOk ch) (t.request ch requestTime length) fun r =>
      (RingOk ch → RingOk r.2.1) ∧ Quiet t r.2.2 ∧ (r.2.2.wrapped = false → requestTime ≤ r.1) ∧
        r.2.2.pcie = t.pcie ∧ r.2.2.ssds = t.ssds := by
  unfold request
  refine (Spec.ofTotal fun h => chmodelLatency_ok h _ _ _).bind fun r hr =>
    .ret ⟨hr, (quiet_readClock t).trans (quiet_addTime _ _ _), fun hw => ?_, rfl, rfl⟩
  exact le_addTime (t := t.readClock.2) (b := r.1) hw

/-- A transfer over the PCIe link ends at its request time or later. -/
theorem ssdAdvancePcie_spec (t : Timing) (requestTime length : Nat) :
    Spec (Ok t) (t.ssdAdvancePcie requestTime length) fun r =>
      Quiet t r.2 ∧ (r.2.wrapped = false → requestTime ≤ r.1) := by
  unfold ssdAdvancePcie
  refine ((request_spec t t.pcie requestTime length).weaken Ok.pcie).bind
    fun r ⟨hring, hq, htime, hpcie, hssds⟩ => .ret ⟨⟨fun h => ?_, hq.nrParts, hq.np, hq.avail, hq.calls,
      hq.wrapped⟩, htime⟩
  have h' := hq.ok h
  exact ⟨hring h.pcie, h'.ch, h'.maxChXferSize, h'.cell⟩

/-- And so does one over a channel. -/
theorem channelRequest_spec (t : Timing) (part ch requestTime length : Nat) :
    Spec (Ok t) (t.channelRequest part ch requestTime length) fun r =>
      Quiet t r.2 ∧ (r.2.wrapped = false → requestTime ≤ r.1) := by
  unfold channelRequest
  refine ((request_spec t _ requestTime length).weaken fun h : Ok t => h.ch part ch).bind
    fun r ⟨hring, hq, htime, hpcie, hssds⟩ => .ret ⟨?_, htime⟩
  have hcase (part' : Nat) : (update r.2.2.ssds part
      { r.2.2.ssds part with ch := update (r.2.2.ssds part).ch ch r.2.1 } part').np = (t.ssds part').np ∧
      (update r.2.2.ssds part
        { r.2.2.ssds part with ch := update (r.2.2.ssds part).ch ch r.2.1 } part').nextLunAvailTime =
          (t.ssds part').nextLunAvailTime ∧
      (Ok t → ∀ ch', RingOk ((update r.2.2.ssds part
        { r.2.2.ssds part with ch := update (r.2.2.ssds part).ch ch r.2.1 } part').ch ch')) := by
    rw [hssds]
    by_cases hp : part' = part
    · subst hp
      rw [update_self]
      refine ⟨rfl, rfl, fun h ch' => ?_⟩
      by_cases hc : ch' = ch
      · subst hc
        dsimp only
        rw [update_self]
        exact hring (h.ch part' ch')
      · dsimp only
        rw [update_of_ne hc]
        exact h.ch part' ch'
    · rw [update_of_ne hp]
      exact ⟨rfl, rfl, fun h ch' => h.ch part' ch'⟩
  refine ⟨fun h => ⟨?_, fun part' => (hcase part').2.2 h, fun part' => ?_, fun part' => ?_⟩, hq.nrParts,
    fun part' => (hcase part').1, fun part' ch' lun => ?_, hq.calls, hq.wrapped⟩
  · rw [hpcie]
    exact h.pcie
  · rw [(hcase part').1]
    exact h.maxChXferSize part'
  · rw [(hcase part').1]
    exact h.cell part'
  · unfold avail
    rw [(hcase part').2.1]

theorem completedTime_spec (t : Timing) (interleavePciDma : Bool) (chnlEtime xferSize : Nat) :
    Spec (Ok t) (t.completedTime interleavePciDma chnlEtime xferSize) fun r =>
      Quiet t r.2 ∧ (r.2.wrapped = false → chnlEtime ≤ r.1) := by
  unfold completedTime
  split
  · exact ssdAdvancePcie_spec t chnlEtime xferSize
  · exact .ret ⟨Quiet.refl t, fun _ => Nat.le_refl _⟩

/-- The transfer of a read, in chunks: the last one ends at the request time or later, and its data are not
with the host before. -/
theorem readChunks_spec {part ch : Nat} {interleavePciDma : Bool} {fuel remaining chnlStime : Nat}
    {times : Option (Nat × Nat)} (t : Timing) (hsome : remaining = 0 → times ≠ none)
    (htimes : ∀ p ∈ times, t.wrapped = false → chnlStime ≤ p.1 ∧ p.1 ≤ p.2) :
    Spec (Ok t ∧ remaining ≤ fuel)
      (readChunks part ch interleavePciDma fuel remaining chnlStime times t) fun r =>
        Quiet t r.2 ∧ ∃ p, r.1 = some p ∧ (r.2.wrapped = false → chnlStime ≤ p.1 ∧ p.1 ≤ p.2) := by
  have hdone (hzero : remaining = 0) : Spec (Ok t ∧ remaining ≤ fuel) (.ok (times, t) : Except Bug _) fun r =>
      Quiet t r.2 ∧ ∃ p, r.1 = some p ∧ (r.2.wrapped = false → chnlStime ≤ p.1 ∧ p.1 ≤ p.2) := by
    obtain ⟨p, hp⟩ := Option.ne_none_iff_exists'.mp (hsome hzero)
    exact .ret ⟨Quiet.refl t, p, hp, htimes p hp⟩
  induction fuel generalizing remaining chnlStime times t with
  | zero =>
    unfold readChunks
    split
    · exact hdone ‹_›
    · exact .error fun h => by omega
  | succ fuel ih =>
    unfold readChunks
    split
    · exact hdone ‹_›
    rename_i hne
    dsimp only
    refine ((channelRequest_spec t part ch chnlStime _).weaken And.left).bind
      fun ⟨chnlEtime, t₁⟩ ⟨hq₁, h₁⟩ => ?_
    refine ((completedTime_spec t₁ interleavePciDma chnlEtime _).weaken fun h => hq₁.ok h.1).bind
      fun ⟨completed, t₂⟩ ⟨hq₂, h₂⟩ => ?_
    have hq := hq₁.trans hq₂
    have htimes₂ : ∀ p ∈ some (chnlEtime, completed), t₂.wrapped = false → chnlEtime ≤ p.1 ∧ p.1 ≤ p.2 := by
      rintro p ⟨⟩ hw
      exact ⟨Nat.le_refl _, h₂ hw⟩
    refine ((ih t₂ (by simp) htimes₂ fun _ => ?_).weaken fun h => ⟨hq.ok h.1, ?_⟩).mono ?_
    · exact .ret ⟨Quiet.refl t₂, _, rfl, htimes₂ _ rfl⟩
    · have := h.1.maxChXferSize part
      omega
    · rintro r ⟨hq₃, p, hp, h₃⟩
      refine ⟨hq.trans hq₃, p, hp, fun hw => ?_⟩
      obtain ⟨hstart, hend⟩ := h₃ hw
      exact ⟨Nat.le_trans (h₁ (hq₂.wrapped (hq₃.wrapped hw))) hstart, hend⟩

end Operations

/-! ## Commands -/

/-- The die of the call is one of the namespace. -/
def OfDevice (t : Timing) (call : NandCall) : Prop :=
  call.part < t.nrParts ∧ call.cmd.ppa.ch < (t.ssds call.part).np.nchs ∧
    call.cmd.ppa.lun < (t.ssds call.part).np.lunsPerCh

/-- Two calls for one die. -/
def SameDie (a b : NandCall) : Prop :=
  a.part = b.part ∧ a.cmd.ppa.ch = b.cmd.ppa.ch ∧ a.cmd.ppa.lun = b.cmd.ppa.lun

/-- What a call records: it does not complete before its start time; if it has an address, the die is busy
from then or later on, and a command other than a read completes when the die is free. -/
structure CallOk (t : Timing) (call : NandCall) : Prop where
  completed : call.stime ≤ call.completed
  issued : call.cmd.ppa ≠ unmappedPpa → ∃ start finish, call.activity = some (start, finish)
  activity : ∀ p ∈ call.activity, OfDevice t call ∧ call.stime ≤ p.1 ∧ p.1 ≤ p.2 ∧
    (call.cmd.cmd ≠ .read → call.completed = p.2)

/-- The record of a run without a wrapped sum. -/
structure Causal (t : Timing) : Prop where
  calls : ∀ call ∈ t.calls, CallOk t call
  serial : t.calls.Pairwise fun a b => SameDie a b → ∀ p ∈ a.activity, ∀ q ∈ b.activity, p.2 ≤ q.1
  reached : ∀ call ∈ t.calls, ∀ p ∈ call.activity,
    p.2 ≤ t.avail call.part call.cmd.ppa.ch call.cmd.ppa.lun

/-- What every step does. -/
structure Advances (t t' : Timing) : Prop where
  ok : Ok t → Ok t'
  nrParts : t'.nrParts = t.nrParts
  np : ∀ part, (t'.ssds part).np = (t.ssds part).np
  wrapped : t'.wrapped = false → t.wrapped = false
  avail : t'.wrapped = false → ∀ part ch lun, t.avail part ch lun ≤ t'.avail part ch lun
  causal : t'.wrapped = false → Causal t → Causal t'

section Commands

variable {t t₁ t₂ : Timing}

theorem Advances.trans (h₁ : Advances t t₁) (h₂ : Advances t₁ t₂) : Advances t t₂ where
  ok := h₂.ok ∘ h₁.ok
  nrParts := h₂.nrParts.trans h₁.nrParts
  np part := (h₂.np part).trans (h₁.np part)
  wrapped := h₁.wrapped ∘ h₂.wrapped
  avail hw part ch lun := Nat.le_trans (h₁.avail (h₂.wrapped hw) part ch lun) (h₂.avail hw part ch lun)
  causal hw := h₂.causal hw ∘ h₁.causal (h₂.wrapped hw)

/-- One more call, of a die that was free at its start. -/
theorem Causal.concat (h : Causal t) {call : NandCall} (hcalls : t₁.calls = t.calls ++ [call])
    (hparts : t₁.nrParts = t.nrParts) (hnp : ∀ part, (t₁.ssds part).np = (t.ssds part).np)
    (hcall : CallOk t₁ call) (hmono : ∀ part ch lun, t.avail part ch lun ≤ t₁.avail part ch lun)
    (hstart : ∀ p ∈ call.activity, t.avail call.part call.cmd.ppa.ch call.cmd.ppa.lun ≤ p.1 ∧
      p.2 ≤ t₁.avail call.part call.cmd.ppa.ch call.cmd.ppa.lun) : Causal t₁ := by
  refine ⟨fun a ha => ?_, ?_, fun a ha p hp => ?_⟩
  · rw [hcalls, List.mem_append, List.mem_singleton] at ha
    obtain ha | rfl := ha
    · obtain ⟨hc, hi, hact⟩ := h.calls a ha
      refine ⟨hc, hi, fun p hp => ?_⟩
      obtain ⟨hdev, hrest⟩ := hact p hp
      refine ⟨?_, hrest⟩
      unfold OfDevice
      rw [hparts, hnp]
      exact hdev
    · exact hcall
  · rw [hcalls, List.pairwise_append]
    refine ⟨h.serial, List.pairwise_singleton _ _, fun a ha b hb hdie p hp q hq => ?_⟩
    obtain rfl := List.mem_singleton.mp hb
    obtain ⟨hpart, hch, hlun⟩ := hdie
    have hreach := h.reached a ha p hp
    rw [hpart, hch, hlun] at hreach
    exact Nat.le_trans hreach (hstart q hq).1
  · rw [hcalls, List.mem_append, List.mem_singleton] at ha
    obtain ha | rfl := ha
    · exact Nat.le_trans (h.reached a ha p hp) (hmono _ _ _)
    · exact (hstart p hp).2

theorem Quiet.advances (h : Quiet t t₁) : Advances t t₁ where
  ok := h.ok
  nrParts := h.nrParts
  np := h.np
  wrapped := h.wrapped
  avail _ part ch lun := Nat.le_of_eq (h.avail part ch lun).symm
  causal _ hc := by
    refine ⟨fun call hcall => ?_, by rw [h.calls]; exact hc.serial, fun call hcall p hp => ?_⟩
    · rw [h.calls] at hcall
      obtain ⟨hcomp, hi, hact⟩ := hc.calls call hcall
      refine ⟨hcomp, hi, fun p hp => ?_⟩
      obtain ⟨hdev, hrest⟩ := hact p hp
      refine ⟨?_, hrest⟩
      unfold OfDevice
      rw [h.nrParts, h.np]
      exact hdev
    · rw [h.calls] at hcall
      rw [h.avail]
      exact hc.reached call hcall p hp

theorem avail_finish (t : Timing) (part : Nat) (cmd : NandCmd) (stime start finish completed : Nat)
    (part' ch lun : Nat) : (t.finish part cmd stime start finish completed).2.avail part' ch lun =
      if part' = part ∧ ch = cmd.ppa.ch ∧ lun = cmd.ppa.lun then finish else t.avail part' ch lun := by
  unfold Timing.finish avail
  dsimp only
  by_cases hp : part' = part
  · subst hp
    rw [update_self]
    dsimp only
    by_cases hc : ch = cmd.ppa.ch
    · subst hc
      rw [update_self]
      by_cases hl : lun = cmd.ppa.lun
      · subst hl
        rw [update_self, if_pos ⟨rfl, rfl, rfl⟩]
      · rw [update_of_ne hl, if_neg fun h => hl h.2.2]
    · rw [update_of_ne hc, if_neg fun h => hc h.2.1]
  · rw [update_of_ne hp, if_neg fun h => hp h.1]

/-- The end of a command: the clock of its die goes from the start of the activity or before to its end. -/
theorem advances_finish {part : Nat} {cmd : NandCmd} {stime start finish completed : Nat}
    (hq : Quiet t t₁) (hdev : OfDevice t ⟨part, cmd, stime, completed, some (start, finish)⟩)
    (hstart : t.avail part cmd.ppa.ch cmd.ppa.lun ≤ start) (hstime : stime ≤ start)
    (htimes : t₁.wrapped = false → start ≤ finish ∧ finish ≤ completed ∧
      (cmd.cmd ≠ .read → completed = finish)) :
    Advances t (t₁.finish part cmd stime start finish completed).2 := by
  have hnp (part' : Nat) : ((t₁.finish part cmd stime start finish completed).2.ssds part').np =
      (t.ssds part').np := by
    rw [← hq.np]
    unfold Timing.finish
    dsimp only
    by_cases hp : part' = part
    · subst hp
      rw [update_self]
    · rw [update_of_ne hp]
  have hmono (hw : t₁.wrapped = false) (part' ch lun : Nat) : t.avail part' ch lun ≤
      (t₁.finish part cmd stime start finish completed).2.avail part' ch lun := by
    rw [avail_finish]
    split
    · rename_i hdie
      obtain ⟨rfl, rfl, rfl⟩ := hdie
      exact Nat.le_trans hstart (htimes hw).1
    · exact Nat.le_of_eq (hq.avail _ _ _).symm
  refine ⟨fun h => ?_, hq.nrParts, hnp, hq.wrapped, hmono, fun hw hc => ?_⟩
  · have h' := hq.ok h
    refine ⟨h'.pcie, fun part' ch => ?_, fun part' => ?_, fun part' => ?_⟩
    · unfold Timing.finish
      dsimp only
      by_cases hp : part' = part
      · subst hp
        rw [update_self]
        exact h'.ch part' ch
      · rw [update_of_ne hp]
        exact h'.ch part' ch
    · rw [hnp]
      exact h.maxChXferSize part'
    · rw [hnp]
      exact h.cell part'
  · obtain ⟨hle, hcomp, hop⟩ := htimes hw
    refine hc.concat (congrArg (· ++ _) hq.calls) hq.nrParts hnp ⟨?_, fun _ => ⟨_, _, rfl⟩, ?_⟩ (hmono hw) ?_
    · exact Nat.le_trans hstime (Nat.le_trans hle hcomp)
    · rintro p ⟨⟩
      refine ⟨?_, hstime, hle, hop⟩
      unfold OfDevice
      rw [hnp, show (t₁.finish part cmd stime start finish completed).2.nrParts = t.nrParts from hq.nrParts]
      exact hdev
    · rintro p ⟨⟩
      refine ⟨hstart, ?_⟩
      rw [avail_finish, if_pos ⟨rfl, rfl, rfl⟩]

/-- The four commands, for a die that is free at `start`. -/
theorem advanceDie_spec {part : Nat} {cmd : NandCmd} {stime start : Nat} (cell : Nat)
    (hdev : OfDevice t ⟨part, cmd, stime, 0, none⟩) (hstart : t.avail part cmd.ppa.ch cmd.ppa.lun ≤ start)
    (hstime : stime ≤ start) :
    Spec (Ok t ∧ (cmd.cmd = .read → cmd.xferSize ≠ 0)) (t.advanceDie part cmd stime start cell) fun r =>
      Advances t r.2 := by
  unfold advanceDie
  cases hcmd : cmd.cmd <;> dsimp only
  case read =>
    generalize (if cmd.xferSize = 4096 then (t.ssds part).np.pg4kbRdLat cell
      else (t.ssds part).np.pgRdLat cell) = lat
    have hq := quiet_addTime t start lat
    have hle := le_addTime (t := t) (a := start) (b := lat)
    generalize t.addTime start lat = sum at hq hle ⊢
    obtain ⟨nandEtime, t₁⟩ := sum
    dsimp only
    by_cases hsize : cmd.xferSize = 0
    · rw [hsize]
      exact .error fun h => h.2 rfl rfl
    refine ((readChunks_spec t₁ (absurd · hsize) (by rintro p ⟨⟩)).weaken
      fun h => ⟨hq.ok h.1, Nat.le_refl _⟩).bind ?_
    rintro ⟨times, t₂⟩ ⟨hq₂, ⟨chnlEtime, completed⟩, htimes, h₂⟩
    dsimp only at htimes hq₂ h₂ ⊢
    rw [htimes]
    refine .ret (advances_finish (hq.trans hq₂) hdev hstart hstime fun hw => ?_)
    obtain ⟨hchnl, hdone⟩ := h₂ hw
    exact ⟨Nat.le_trans (hle (hq₂.wrapped hw)) hchnl, hdone, fun hne => absurd hcmd hne⟩
  case write =>
    refine ((channelRequest_spec t part cmd.ppa.ch start cmd.xferSize).weaken And.left).bind ?_
    rintro ⟨chnlEtime, t₁⟩ ⟨hq₁, h₁⟩
    dsimp only
    have hq := quiet_addTime t₁ chnlEtime (t.ssds part).np.pgWrLat
    refine .ret (advances_finish (hq₁.trans hq) hdev hstart hstime fun hw => ?_)
    exact ⟨Nat.le_trans (h₁ (hq.wrapped hw)) (le_addTime hw), Nat.le_refl _, fun _ => rfl⟩
  case erase =>
    refine .ret (advances_finish (quiet_addTime t start _) hdev hstart hstime fun hw => ?_)
    exact ⟨le_addTime hw, Nat.le_refl _, fun _ => rfl⟩
  case nop =>
    exact .ret (advances_finish (Quiet.refl t) hdev hstart hstime fun _ =>
      ⟨Nat.le_refl _, Nat.le_refl _, fun _ => rfl⟩)

/-- The command has a part of the namespace, and a die there if it has an address; a read has data. -/
structure InDevice (t : Timing) (part : Nat) (cmd : NandCmd) : Prop where
  part_lt : part < t.nrParts
  die : cmd.ppa ≠ unmappedPpa → cmd.ppa.ch < (t.ssds part).np.nchs ∧ cmd.ppa.lun < (t.ssds part).np.lunsPerCh
  xferSize : cmd.cmd = .read → cmd.xferSize ≠ 0

theorem ssdAdvanceNand_spec (t : Timing) (part : Nat) (cmd : NandCmd) :
    Spec (Ok t ∧ InDevice t part cmd) (t.ssdAdvanceNand part cmd) fun r => Advances t r.2 := by
  unfold ssdAdvanceNand
  refine (Spec.ensure fun h => h.2.part_lt).bind fun _ hpart => ?_
  have hread : Quiet t (if cmd.stime = 0 then t.readClock else (cmd.stime, t)).2 := by
    split
    · exact quiet_readClock t
    · exact Quiet.refl t
  generalize (if cmd.stime = 0 then t.readClock else (cmd.stime, t)) = sample at hread ⊢
  obtain ⟨cmdStime, t₁⟩ := sample
  dsimp only at hread ⊢
  split
  · -- no die: only the call is recorded
    rename_i hunmapped
    have hnew : Advances t₁
        { t₁ with calls := t₁.calls ++ [⟨part, cmd, cmdStime, cmdStime, none⟩] } := by
      refine ⟨fun h => ⟨h.pcie, h.ch, h.maxChXferSize, h.cell⟩, rfl, fun _ => rfl, id,
        fun _ _ _ _ => Nat.le_refl _, fun _ hc => ?_⟩
      exact hc.concat rfl rfl (fun _ => rfl) ⟨Nat.le_refl _, fun hne => absurd hunmapped hne, by rintro p ⟨⟩⟩
        (fun _ _ _ => Nat.le_refl _) (by rintro p ⟨⟩)
    exact .ret (hread.advances.trans hnew)
  · rename_i hmapped
    refine (Spec.ensure fun h => ?_).bind fun _ hdie => (Spec.ensure fun h => ?_).bind fun _ _ => ?_
    · rw [hread.np]
      exact h.2.die hmapped
    · rw [hread.np]
      exact h.1.cell part
    · have hdev : OfDevice t₁ ⟨part, cmd, cmdStime, 0, none⟩ := ⟨by rw [hread.nrParts]; exact hpart, hdie⟩
      refine ((advanceDie_spec _ hdev (Nat.le_max_left _ _) (Nat.le_max_right _ _)).weaken
        fun h => ⟨hread.ok h.1, h.2.xferSize⟩).mono fun r hr => hread.advances.trans hr

/-! ## Runs -/

/-- What the FTLs do with the timing model: NAND commands, PCIe transfers and the transfers to the write
buffer, and what else reads the clock. -/
inductive Action where
  | nand (part : Nat) (cmd : NandCmd)
  | pcie (requestTime length : Nat)
  | writeBuffer (part requestTime length : Nat)
  | readClock

/-- One step. -/
def step (t : Timing) : Action → Except Bug Timing
  | .nand part cmd => do
    let (_, t) ← t.ssdAdvanceNand part cmd
    pure t
  | .pcie requestTime length => do
    let (_, t) ← t.ssdAdvancePcie requestTime length
    pure t
  | .writeBuffer part requestTime length => do
    let (_, t) ← t.ssdAdvanceWriteBuffer part requestTime length
    pure t
  | .readClock => pure t.readClock.2

/-- The NAND commands of the action are in the device. -/
def Action.InDevice (t : Timing) : Action → Prop
  | .nand part cmd => Timing.InDevice t part cmd
  | _ => True

theorem step_spec (t : Timing) (a : Action) : Spec (Ok t ∧ a.InDevice t) (t.step a) (Advances t) := by
  cases a with
  | nand part cmd =>
    exact (ssdAdvanceNand_spec t part cmd).bind fun _ hr => .ret hr
  | pcie requestTime length =>
    exact ((ssdAdvancePcie_spec t requestTime length).weaken And.left).bind fun _ hr => .ret hr.1.advances
  | writeBuffer part requestTime length =>
    have hq := (quiet_addTime t requestTime (t.ssds part).np.fwWbufLat0).trans (quiet_addTime _
      (t.addTime requestTime (t.ssds part).np.fwWbufLat0).1
      ((t.ssds part).np.fwWbufLat1 * divRoundUp length 4096))
    unfold step ssdAdvanceWriteBuffer
    exact ((ssdAdvancePcie_spec _ _ length).weaken fun h => hq.ok h.1).bind fun _ hr =>
      .ret (hq.trans hr.1).advances
  | readClock => exact .ret (quiet_readClock t).advances

theorem Advances.refl (t : Timing) : Advances t t := (Quiet.refl t).advances

/-- A run: every step advances. -/
theorem run_spec (t : Timing) (actions : List Action) :
    Spec (Ok t ∧ ∀ a ∈ actions, a.InDevice t) (actions.foldlM step t) (Advances t) := by
  refine Spec.foldlM (Advances.refl t) fun t₁ h₁ a ha => ?_
  refine ((step_spec t₁ a).weaken fun h => ⟨h₁.ok h.1, ?_⟩).mono fun t₂ h₂ => h₁.trans h₂
  have hin := h.2 a ha
  cases a with
  | nand part cmd =>
    exact ⟨by rw [h₁.nrParts]; exact hin.part_lt, by rw [h₁.np]; exact hin.die, hin.xferSize⟩
  | pcie | writeBuffer | readClock => trivial

end Commands

/-! ## Flushes -/

theorem le_foldl {α : Type} {g : Nat → α → Nat} (hg : ∀ n a, n ≤ g n a) (l : List α) (n : Nat) :
    n ≤ l.foldl g n := by
  induction l generalizing n with
  | nil => exact Nat.le_refl n
  | cons a l ih => exact Nat.le_trans (hg n a) (ih _)

theorem mem_le_foldl {α : Type} {g : Nat → α → Nat} (hg : ∀ n a, n ≤ g n a) {l : List α} {a : α} {b : Nat}
    (ha : a ∈ l) (hb : ∀ n, b ≤ g n a) (n : Nat) : b ≤ l.foldl g n := by
  induction l generalizing n with
  | nil => cases ha
  | cons c l ih =>
    obtain rfl | ha := List.mem_cons.mp ha
    · exact Nat.le_trans (hb n) (le_foldl hg l _)
    · exact ih ha _

/-- `ssd_next_idle_time` is not before the clock of a die of the SSD. -/
theorem ssdNextIdleTime_spec (t : Timing) (part : Nat) : Quiet t (t.ssdNextIdleTime part).2 ∧
    ∀ ch < (t.ssds part).np.nchs, ∀ lun < (t.ssds part).np.lunsPerCh,
      t.avail part ch lun ≤ (t.ssdNextIdleTime part).1 := by
  refine ⟨quiet_readClock t, fun ch hch lun hlun => ?_⟩
  refine mem_le_foldl (fun n _ => ?_) (List.mem_range.mpr hch) (fun n => ?_) _
  · exact le_foldl (fun _ _ => Nat.le_max_left _ _) _ n
  · exact mem_le_foldl (g := fun latest lun => max latest (t.avail part ch lun))
      (fun _ _ => Nat.le_max_left _ _) (List.mem_range.mpr hlun) (fun _ => Nat.le_max_right _ _) n

end Timing

/-- `ssd_init` for the partitions of a namespace, with the models `ch` of the channels and `pcie` of the
link. -/
def Timing.init (nrParts : Nat) (np : Nat → NandParams) (ch : Nat → Nat → ChannelModel) (pcie : ChannelModel)
    (clock : Nat → Nat) : Timing where
  nrParts
  ssds part := { np := np part, nextLunAvailTime := fun _ _ => 0, ch := ch part }
  pcie
  clock

theorem Timing.causal_init (nrParts : Nat) (np : Nat → NandParams) (ch : Nat → Nat → ChannelModel)
    (pcie : ChannelModel) (clock : Nat → Nat) : Timing.Causal (.init nrParts np ch pcie clock) :=
  ⟨nofun, .nil, nofun⟩

/-- The value and the state of a timing operation. The FTLs call none that stops. -/
def orStopped (t : Timing) : Except Bug (Nat × Timing) → Nat × Timing
  | .ok r => r
  | .error _ => (0, t)

/-- The timing of the SSD of part `part`, as the FTLs see it. -/
def nandPerf (part : Nat) : PerfModel Timing where
  advanceNand t cmd := orStopped t (t.ssdAdvanceNand part cmd)
  advancePcie t requestTime length := orStopped t (t.ssdAdvancePcie requestTime length)
  advanceWriteBuffer t requestTime length := orStopped t (t.ssdAdvanceWriteBuffer part requestTime length)
  nextIdleTime t := t.ssdNextIdleTime part
  localClock t := t.readClock

/-- The loop of `conv_flush` over the partitions. -/
theorem flushParts_spec (parts : List Nat) (latest : Nat) (t : Timing) :
    latest ≤ (parts.foldl (fun (latest, perf) i =>
      let (idle, perf) := (nandPerf i).nextIdleTime perf
      (max latest idle, perf)) (latest, t)).1 ∧
    ∀ i ∈ parts, ∀ ch < (t.ssds i).np.nchs, ∀ lun < (t.ssds i).np.lunsPerCh,
      t.avail i ch lun ≤ (parts.foldl (fun (latest, perf) i =>
        let (idle, perf) := (nandPerf i).nextIdleTime perf
        (max latest idle, perf)) (latest, t)).1 := by
  induction parts generalizing latest t with
  | nil => exact ⟨Nat.le_refl _, nofun⟩
  | cons part parts ih =>
    obtain ⟨hq, hidle⟩ := t.ssdNextIdleTime_spec part
    obtain ⟨hlatest, hrest⟩ := ih (max latest (t.ssdNextIdleTime part).1) (t.ssdNextIdleTime part).2
    refine ⟨Nat.le_trans (Nat.le_max_left _ _) hlatest, fun i hi ch hch lun hlun => ?_⟩
    obtain rfl | hi := List.mem_cons.mp hi
    · exact Nat.le_trans (Nat.le_trans (hidle ch hch lun hlun) (Nat.le_max_right _ _)) hlatest
    · rw [← hq.avail i ch lun]
      exact hrest i hi ch (by rw [hq.np]; exact hch) lun (by rw [hq.np]; exact hlun)

/-- `conv_flush` completes when every die of the namespace is free. -/
theorem convFlush_target (ns : ConvNs Timing) (req : RwRequest) {part ch lun : Nat} (hpart : part < ns.nrParts)
    (hch : ch < (ns.perf.ssds part).np.nchs) (hlun : lun < (ns.perf.ssds part).np.lunsPerCh) :
    ns.perf.avail part ch lun ≤ (convFlush nandPerf ns req).ret.nsecsTarget := by
  have hq := Timing.quiet_readClock ns.perf
  have hparts := (flushParts_spec (List.range ns.nrParts) ns.perf.readClock.1 ns.perf.readClock.2).2 part
    (List.mem_range.mpr hpart) ch (by rw [hq.np]; exact hch) lun (by rw [hq.np]; exact hlun)
  rw [hq.avail] at hparts
  exact hparts

/-- And so does `zns_flush`, for the one part of a zoned namespace. -/
theorem znsFlush_target (z : ZnsFtl Timing) {ch lun : Nat} (hch : ch < (z.ssd.perf.ssds 0).np.nchs)
    (hlun : lun < (z.ssd.perf.ssds 0).np.lunsPerCh) :
    z.ssd.perf.avail 0 ch lun ≤ (znsFlush (nandPerf 0) z).1.nsecsTarget := by
  have hq := Timing.quiet_readClock z.ssd.perf
  have hidle := (z.ssd.perf.readClock.2.ssdNextIdleTime_spec 0).2 ch (by rw [hq.np]; exact hch) lun
    (by rw [hq.np]; exact hlun)
  rw [hq.avail] at hidle
  exact Nat.le_trans hidle (Nat.le_max_right _ _)

/-- Two programs of one die, on fresh channels. -/
def Timing.twoWrites : List Timing.Action :=
  [.nand 0 { type := .userIo, cmd := .write, xferSize := 32768, stime := 100, ppa := ⟨0, 0, 0, 0, 0, 0⟩ },
    .nand 0 { type := .gcIo, cmd := .write, xferSize := 32768, stime := 200, ppa := ⟨1, 0, 0, 0, 0, 0⟩ }]

/-- One SSD with one channel and one die. -/
def Timing.oneDie : Timing :=
  .init 1 (fun _ =>
    { nchs := 1, lunsPerCh := 1, pgsPerFlashpg := 4, cellMode := 2, pg4kbRdLat := fun _ => 35760
      pgRdLat := fun _ => 36013, pgWrLat := 185000, blkErLat := 0, maxChXferSize := 16384
      fwWbufLat0 := 4000, fwWbufLat1 := 460 }) (fun _ _ => freshChannel 26 152) (freshChannel 109 36) fun _ => 0

end Nvmev
