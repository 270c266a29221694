import NvmeVirt.Lib.PhaseRing
import NvmeVirt.Lib.Runs
import NvmeVirt.Nvme

/-!
# The I/O units of the NVM and KV devices

`__schedule_io_units` and `__schedule_flush`, which `simple_ftl.c` and `kv_ftl.c` have alike, up to the
opcodes that count as reads and writes. `io_unit_stat` holds for each unit the time until which it is
busy; a command takes its units one after the other around the ring, but looks at the time of the first
one only.

`io_units_never_move_back`: no entry decreases, and a flush covers every command before it, exactly if
each command comes to its last lap of units when they are no longer busy.
-/

namespace Nvmev

open CInt Function PhaseRing Runs

/-- The part of `struct nvmev_config` that is about the I/O units. -/
structure IoUnitConfig where
  nrIoUnits : Nat
  ioUnitShift : Nat
  readDelay : Nat
  readTime : Nat
  readTrailing : Nat
  writeDelay : Nat
  writeTime : Nat
  writeTrailing : Nat

/-- `delay`, `latency` and `trailing` of a command. -/
structure IoTiming where
  delay : Nat
  latency : Nat
  trailing : Nat

/-- The arguments of `__schedule_io_units`. -/
structure IoUnitRequest where
  opcode : Opcode
  lba : Nat
  length : Nat
  nsecsStart : Nat

namespace IoUnitConfig

variable (cfg : IoUnitConfig)

/-- `io_unit_size`. -/
def ioUnitSize : Nat := u32 (1 <<< cfg.ioUnitShift)

def readTiming : IoTiming := ⟨cfg.readDelay, cfg.readTime, cfg.readTrailing⟩

def writeTiming : IoTiming := ⟨cfg.writeDelay, cfg.writeTime, cfg.writeTrailing⟩

/-- The opcodes that `simple_ftl.c` tells apart. -/
def simpleTiming : Opcode → IoTiming
  | .write => cfg.writeTiming
  | .read => cfg.readTiming
  | _ => ⟨0, 0, 0⟩

/-- The opcodes that `kv_ftl.c` tells apart. -/
def kvTiming : Opcode → IoTiming
  | .write | .kvStore | .kvBatch => cfg.writeTiming
  | .read | .kvRetrieve => cfg.readTiming
  | _ => ⟨0, 0, 0⟩

end IoUnitConfig

/-- The variables of the loop of `__schedule_io_units`. -/
structure IoUnitLoop where
  latest : Nat
  ioUnit : Nat
  /-- The `int` counter: below 1 it does not count any more. -/
  nrIoUnits : Nat
  length : Nat
  stat : Nat → Nat

section Schedule

variable (cfg : IoUnitConfig) (timing : IoTiming)

/-- One turn of the loop. -/
def ioUnitTurn (s : IoUnitLoop) : IoUnitLoop :=
  let latest := u64 (s.latest + timing.latency)
  let busy := if 0 < s.nrIoUnits then u64 (latest + timing.trailing) else latest
  { latest
    ioUnit := if cfg.nrIoUnits ≤ s.ioUnit + 1 then 0 else s.ioUnit + 1
    nrIoUnits := s.nrIoUnits - 1
    length := s.length - min s.length cfg.ioUnitSize
    stat := update s.stat s.ioUnit busy }

/-- The loop. -/
def ioUnitLoop : Nat → IoUnitLoop → IoUnitLoop
  | 0, s => s
  | fuel + 1, s =>
    let s := ioUnitTurn cfg timing s
    if 0 < s.length then ioUnitLoop fuel s else s

/-- `io_unit` before the loop. -/
def IoUnitConfig.firstUnit (lba : Nat) : Nat := (lba >>> (cfg.ioUnitShift - lbaBits)) % cfg.nrIoUnits

/-- The time that the first unit is reached, with the delay. -/
def IoUnitRequest.base (req : IoUnitRequest) (stat : Nat → Nat) : Nat :=
  max req.nsecsStart (stat (cfg.firstUnit req.lba)) + timing.delay

/-- `nr_io_units`: the turns that add `trailing`. -/
def IoUnitConfig.trailed (length : Nat) : Nat :=
  min cfg.nrIoUnits (u32 (length + cfg.ioUnitSize - 1) / cfg.ioUnitSize)

/-- `__schedule_io_units`: the time of completion, and the new `io_unit_stat`. A turn takes something off
the length, so there are at most `length + 1` turns. -/
def scheduleIoUnits (stat : Nat → Nat) (req : IoUnitRequest) : Nat × (Nat → Nat) :=
  let length := u32 req.length
  let s := ioUnitLoop cfg timing (length + 1)
    { latest := u64 (req.base cfg timing stat)
      ioUnit := cfg.firstUnit req.lba
      nrIoUnits := cfg.trailed length
      length, stat }
  (s.latest, s.stat)

end Schedule

/-- `__schedule_io_units` of `simple_ftl.c`. -/
def simpleScheduleIoUnits (cfg : IoUnitConfig) (stat : Nat → Nat) (req : IoUnitRequest) : Nat × (Nat → Nat) :=
  scheduleIoUnits cfg (cfg.simpleTiming req.opcode) stat req

/-- `__schedule_io_units` of `kv_ftl.c`. -/
def kvScheduleIoUnits (cfg : IoUnitConfig) (stat : Nat → Nat) (req : IoUnitRequest) : Nat × (Nat → Nat) :=
  scheduleIoUnits cfg (cfg.kvTiming req.opcode) stat req

/-- `__schedule_flush`. -/
def scheduleFlush (cfg : IoUnitConfig) (stat : Nat → Nat) : Nat :=
  (List.range cfg.nrIoUnits).foldl (fun latest i => max latest (stat i)) 0

namespace IoUnits

/-- The number of turns for a command: at least one. -/
def turns (cfg : IoUnitConfig) (length : Nat) : Nat := max 1 (divRoundUp length cfg.ioUnitSize)

/-- The time that turn `t` writes, with the trailing time for the first `n` turns. -/
def busyUntil (timing : IoTiming) (base n t : Nat) : Nat :=
  base + (t + 1) * timing.latency + if t < n then timing.trailing else 0

section Turns

variable {cfg : IoUnitConfig} {timing : IoTiming} {s : IoUnitLoop}

theorem turns_succ (hsize : 0 < cfg.ioUnitSize) {length : Nat} (h : cfg.ioUnitSize < length) :
    turns cfg length = turns cfg (length - min length cfg.ioUnitSize) + 1 := by
  have hsub : length + cfg.ioUnitSize - 1 =
      (length - cfg.ioUnitSize + cfg.ioUnitSize - 1) + cfg.ioUnitSize := by
    omega
  unfold turns divRoundUp
  rw [Nat.min_eq_right (by omega), hsub, Nat.add_div_right _ hsize]
  have hpos : 1 ≤ (length - cfg.ioUnitSize + cfg.ioUnitSize - 1) / cfg.ioUnitSize := by
    rw [Nat.le_div_iff_mul_le hsize]
    omega
  omega

theorem turns_last (hsize : 0 < cfg.ioUnitSize) {length : Nat} (h : length ≤ cfg.ioUnitSize) :
    turns cfg length = 1 := by
  have hle : divRoundUp length cfg.ioUnitSize ≤ 1 := by
    unfold divRoundUp
    rw [← Nat.lt_succ_iff, Nat.div_lt_iff_lt_mul hsize]
    omega
  unfold turns
  omega

/-- The loop ends after its turns. -/
theorem ioUnitLoop_eq (hsize : 0 < cfg.ioUnitSize) {fuel : Nat} (hfuel : s.length < fuel) :
    ioUnitLoop cfg timing fuel s = (ioUnitTurn cfg timing)^[turns cfg s.length] s := by
  induction fuel generalizing s with
  | zero => omega
  | succ fuel ih =>
    unfold ioUnitLoop
    dsimp only
    have hlen : (ioUnitTurn cfg timing s).length = s.length - min s.length cfg.ioUnitSize := rfl
    by_cases hmore : cfg.ioUnitSize < s.length
    · rw [if_pos (by omega), ih (by omega), turns_succ hsize hmore, iterate_succ_apply, hlen]
    · rw [if_neg (by omega), turns_last hsize (by omega), iterate_one]

/-- What the turns leave, if no time overflows. -/
structure After (cfg : IoUnitConfig) (timing : IoTiming) (s : IoUnitLoop) (k : Nat)
    (s' : IoUnitLoop) : Prop where
  latest : s'.latest = s.latest + k * timing.latency
  ioUnit : s'.ioUnit = (s.ioUnit + k) % cfg.nrIoUnits
  nrIoUnits : s'.nrIoUnits = s.nrIoUnits - k
  /-- The last lap of units. -/
  stat : ∀ t < k, k ≤ t + cfg.nrIoUnits →
    s'.stat ((s.ioUnit + t) % cfg.nrIoUnits) = busyUntil timing s.latest s.nrIoUnits t
  other : ∀ v, (∀ t < k, (s.ioUnit + t) % cfg.nrIoUnits ≠ v) → s'.stat v = s.stat v

theorem after_iterate (hnr : 0 < cfg.nrIoUnits) (hunit : s.ioUnit < cfg.nrIoUnits) {k : Nat}
    (hfit : s.latest + k * timing.latency + timing.trailing < 2 ^ 64) :
    After cfg timing s k ((ioUnitTurn cfg timing)^[k] s) := by
  induction k with
  | zero => exact ⟨by simp, (Nat.mod_eq_of_lt hunit).symm, rfl, fun t ht => by omega, fun v _ => rfl⟩
  | succ k ih =>
    rw [Nat.succ_mul] at hfit
    have h := ih (by omega)
    rw [iterate_succ_apply']
    generalize (ioUnitTurn cfg timing)^[k] s = s' at h ⊢
    have hlatest : u64 (s'.latest + timing.latency) = s.latest + (k + 1) * timing.latency := by
      rw [h.latest, u64_of_lt (by omega), Nat.succ_mul, Nat.add_assoc]
    have hbusy : (ioUnitTurn cfg timing s').stat =
        update s'.stat ((s.ioUnit + k) % cfg.nrIoUnits) (busyUntil timing s.latest s.nrIoUnits k) := by
      unfold ioUnitTurn busyUntil
      dsimp only
      rw [hlatest, h.nrIoUnits, h.ioUnit, u64_of_lt (by rw [Nat.succ_mul]; omega)]
      congr 1
      by_cases hk : k < s.nrIoUnits
      · rw [if_pos (by omega), if_pos hk]
      · rw [if_neg (by omega), if_neg hk]
        rfl
    refine ⟨hlatest, ?_, ?_, fun t ht hlap => ?_, fun v hv => ?_⟩
    · unfold ioUnitTurn
      dsimp only
      rw [h.ioUnit, ← Nat.add_assoc, mod_succ hnr, PhaseRing.next]
      have := Nat.mod_lt (s.ioUnit + k) hnr
      by_cases hend : (s.ioUnit + k) % cfg.nrIoUnits + 1 = cfg.nrIoUnits
      · rw [if_pos (by omega), if_pos hend]
      · rw [if_neg (by omega), if_neg hend]
    · change s'.nrIoUnits - 1 = _
      rw [h.nrIoUnits]
      omega
    · rw [hbusy]
      obtain rfl | hlt := Nat.eq_or_lt_of_le (Nat.le_of_lt_succ ht)
      · rw [update_self]
      · -- less than a lap before the unit of the last turn
        have hne : (s.ioUnit + t) % cfg.nrIoUnits ≠ (s.ioUnit + k) % cfg.nrIoUnits := fun heq => by
          have := eq_of_mod_eq heq (by omega) (by omega)
          omega
        rw [update_of_ne hne]
        exact h.stat t hlt (by omega)
    · rw [hbusy, update_of_ne (Ne.symm (hv k (Nat.lt_succ_self k)))]
      exact h.other v fun t ht => hv t (Nat.lt_succ_of_lt ht)

end Turns

/-! ## A command -/

section Command

variable (cfg : IoUnitConfig) (timing : IoTiming) (stat : Nat → Nat) (req : IoUnitRequest)

/-- The command does not overflow the time. -/
def Fits : Prop :=
  req.base cfg timing stat + turns cfg (u32 req.length) * timing.latency + timing.trailing < 2 ^ 64

/-- Each unit of the last lap is no longer busy at the time that the command writes there. -/
def Clear : Prop :=
  ∀ t < turns cfg (u32 req.length), turns cfg (u32 req.length) ≤ t + cfg.nrIoUnits →
    stat ((cfg.firstUnit req.lba + t) % cfg.nrIoUnits) ≤
      busyUntil timing (req.base cfg timing stat) (cfg.trailed (u32 req.length)) t

instance : Decidable (Fits cfg timing stat req) := inferInstanceAs (Decidable (_ < _))

instance : Decidable (Clear cfg timing stat req) := inferInstanceAs (Decidable (∀ t < _, _ → _ ≤ _))

variable {cfg timing stat req}

/-- `__schedule_io_units` as turns. -/
theorem scheduleIoUnits_after (hnr : 0 < cfg.nrIoUnits) (hsize : 0 < cfg.ioUnitSize)
    (hfit : Fits cfg timing stat req) : ∃ s', scheduleIoUnits cfg timing stat req = (s'.latest, s'.stat) ∧
      After cfg timing
        { latest := req.base cfg timing stat
          ioUnit := cfg.firstUnit req.lba
          nrIoUnits := cfg.trailed (u32 req.length)
          length := u32 req.length, stat } (turns cfg (u32 req.length)) s' := by
  unfold Fits at hfit
  refine ⟨_, ?_, after_iterate hnr (Nat.mod_lt _ hnr) hfit⟩
  unfold scheduleIoUnits
  dsimp only
  rw [u64_of_lt (by omega), ioUnitLoop_eq hsize (by exact Nat.lt_succ_self _)]

theorem turns_pos (cfg : IoUnitConfig) (length : Nat) : 0 < turns cfg length := by
  unfold turns
  omega

/-- The last turn for the unit of turn `t`. -/
theorem exists_last {n k t u : Nat} (hn : 0 < n) (ht : t < k) :
    ∃ t' < k, k ≤ t' + n ∧ (u + t') % n = (u + t) % n := by
  have hdiv := Nat.div_add_mod (k - 1 - t) n
  have hmod := Nat.mod_lt (k - 1 - t) hn
  refine ⟨t + n * ((k - 1 - t) / n), by omega, by omega, ?_⟩
  rw [← Nat.add_assoc, Nat.add_mul_mod_self_left]

/-- No entry decreases exactly if the units are clear. -/
theorem noDecrease_iff (hnr : 0 < cfg.nrIoUnits) (hsize : 0 < cfg.ioUnitSize)
    (hfit : Fits cfg timing stat req) :
    (∀ v < cfg.nrIoUnits, stat v ≤ (scheduleIoUnits cfg timing stat req).2 v) ↔
      Clear cfg timing stat req := by
  obtain ⟨s', heq, h⟩ := scheduleIoUnits_after hnr hsize hfit
  rw [heq]
  constructor
  · intro hmono t ht hlap
    rw [← h.stat t ht hlap]
    exact hmono _ (Nat.mod_lt _ hnr)
  · intro hclear v _
    by_cases hv : ∃ t < turns cfg (u32 req.length), (cfg.firstUnit req.lba + t) % cfg.nrIoUnits = v
    · obtain ⟨t, ht, rfl⟩ := hv
      obtain ⟨t', ht', hlap, hunit⟩ := exists_last hnr ht (u := cfg.firstUnit req.lba)
      have hstat := h.stat t' ht' hlap
      dsimp only at hstat ⊢
      rw [← hunit, hstat]
      exact hclear t' ht' hlap
    · push Not at hv
      exact Nat.le_of_eq (h.other v hv).symm

/-- The completion of the command is covered by the unit of its last turn. -/
theorem latest_le (hnr : 0 < cfg.nrIoUnits) (hsize : 0 < cfg.ioUnitSize)
    (hfit : Fits cfg timing stat req) : ∃ v < cfg.nrIoUnits,
      (scheduleIoUnits cfg timing stat req).1 ≤ (scheduleIoUnits cfg timing stat req).2 v := by
  obtain ⟨s', heq, h⟩ := scheduleIoUnits_after hnr hsize hfit
  rw [heq]
  have hpos := turns_pos cfg (u32 req.length)
  have hlast := h.stat (turns cfg (u32 req.length) - 1) (by omega) (by omega)
  refine ⟨(cfg.firstUnit req.lba + (turns cfg (u32 req.length) - 1)) % cfg.nrIoUnits, Nat.mod_lt _ hnr, ?_⟩
  dsimp only at hlast ⊢
  rw [hlast, h.latest, busyUntil, Nat.sub_add_cancel hpos]
  exact Nat.le_add_right _ _

end Command

theorem le_scheduleFlush {cfg : IoUnitConfig} (stat : Nat → Nat) {v : Nat} (hv : v < cfg.nrIoUnits) :
    stat v ≤ scheduleFlush cfg stat := by
  unfold scheduleFlush
  generalize cfg.nrIoUnits = n at hv
  induction n with
  | zero => omega
  | succ n ih =>
    rw [List.range_succ, List.foldl_append]
    obtain rfl | hlt := Nat.eq_or_lt_of_le (Nat.le_of_lt_succ hv)
    · exact Nat.le_max_right _ _
    · exact (ih hlt).trans (Nat.le_max_left _ _)

/-! ## Runs -/

/-- The two devices. -/
inductive Device where
  | nvm | kv

/-- `__schedule_io_units` of a device. -/
def Device.schedule (dev : Device) (cfg : IoUnitConfig) (stat : Nat → Nat) (req : IoUnitRequest) :
    Nat × (Nat → Nat) :=
  match dev with
  | .nvm => simpleScheduleIoUnits cfg stat req
  | .kv => kvScheduleIoUnits cfg stat req

/-- The timing of a command. -/
def Device.timing (dev : Device) (cfg : IoUnitConfig) (opcode : Opcode) : IoTiming :=
  match dev with
  | .nvm => cfg.simpleTiming opcode
  | .kv => cfg.kvTiming opcode

theorem Device.schedule_eq (dev : Device) (cfg : IoUnitConfig) (stat : Nat → Nat) (req : IoUnitRequest) :
    dev.schedule cfg stat req = scheduleIoUnits cfg (dev.timing cfg req.opcode) stat req := by
  cases dev <;> rfl

/-- `io_unit_stat`, and the completion times of the commands so far. -/
structure Sys where
  stat : Nat → Nat
  targets : List Nat := []

/-- A command. -/
def step (cfg : IoUnitConfig) (dev : Device) (s : Sys) (req : IoUnitRequest) : Sys :=
  let (latest, stat) := dev.schedule cfg s.stat req
  { stat, targets := s.targets ++ [latest] }

theorem step_eq (cfg : IoUnitConfig) (dev : Device) (s : Sys) (req : IoUnitRequest) :
    step cfg dev s req =
      { stat := (scheduleIoUnits cfg (dev.timing cfg req.opcode) s.stat req).2
        targets := s.targets ++ [(scheduleIoUnits cfg (dev.timing cfg req.opcode) s.stat req).1] } := by
  unfold step
  rw [dev.schedule_eq]

/-- No entry of `io_unit_stat` decreases. -/
def NoDecrease (cfg : IoUnitConfig) (dev : Device) (s : Sys) (req : IoUnitRequest) : Prop :=
  ∀ v < cfg.nrIoUnits, s.stat v ≤ (step cfg dev s req).stat v

/-- A flush is done no earlier than each command before it. -/
def FlushCovers (cfg : IoUnitConfig) (s : Sys) : Prop :=
  ∀ target ∈ s.targets, target ≤ scheduleFlush cfg s.stat

/-- The units of the command are clear. -/
def StepClear (cfg : IoUnitConfig) (dev : Device) (s : Sys) (req : IoUnitRequest) : Prop :=
  Clear cfg (dev.timing cfg req.opcode) s.stat req

/-- The command does not overflow the time. -/
def StepFits (cfg : IoUnitConfig) (dev : Device) (s : Sys) (req : IoUnitRequest) : Prop :=
  Fits cfg (dev.timing cfg req.opcode) s.stat req

instance (cfg : IoUnitConfig) (dev : Device) (s : Sys) (req : IoUnitRequest) :
    Decidable (StepClear cfg dev s req) := inferInstanceAs (Decidable (Clear _ _ _ _))

instance (cfg : IoUnitConfig) (dev : Device) (s : Sys) (req : IoUnitRequest) :
    Decidable (StepFits cfg dev s req) := inferInstanceAs (Decidable (Fits _ _ _ _))

/-- Every command so far is covered by a unit. -/
def Covered (cfg : IoUnitConfig) (s : Sys) : Prop :=
  ∀ target ∈ s.targets, ∃ v < cfg.nrIoUnits, target ≤ s.stat v

section Runs

variable {cfg : IoUnitConfig} {dev : Device} {s : Sys} {req : IoUnitRequest} (hnr : 0 < cfg.nrIoUnits)
  (hsize : 0 < cfg.ioUnitSize)

include hnr hsize

theorem noDecrease_iff_clear (hfit : StepFits cfg dev s req) :
    NoDecrease cfg dev s req ↔ StepClear cfg dev s req := by
  unfold NoDecrease
  rw [step_eq]
  exact noDecrease_iff hnr hsize hfit

theorem Covered.step (h : Covered cfg s) (hfit : StepFits cfg dev s req)
    (hmono : NoDecrease cfg dev s req) : Covered cfg (step cfg dev s req) := by
  unfold NoDecrease at hmono
  rw [step_eq] at hmono ⊢
  intro target ht
  obtain ht | ht := List.mem_append.mp ht
  · obtain ⟨v, hv, hle⟩ := h target ht
    exact ⟨v, hv, hle.trans (hmono v hv)⟩
  · rw [List.mem_singleton.mp ht]
    exact latest_le hnr hsize hfit

end Runs

theorem Covered.flush {cfg : IoUnitConfig} {s : Sys} (h : Covered cfg s) : FlushCovers cfg s := by
  intro target ht
  obtain ⟨v, hv, hle⟩ := h target ht
  exact hle.trans (le_scheduleFlush s.stat hv)

end IoUnits

/-- For both devices and every configuration, over every run of commands whose times fit into 64 bits: no
entry of `io_unit_stat` ever decreases, and every flush covers the commands before it, exactly if each
command finds its last lap of units clear. The size of a unit fits into an `unsigned int`. -/
theorem io_units_never_move_back (dev : IoUnits.Device) {cfg : IoUnitConfig} (hnr : 0 < cfg.nrIoUnits)
    (hshift : cfg.ioUnitShift < 32) (stat : Nat → Nat) {reqs : List IoUnitRequest}
    (hfit : AllSteps (IoUnits.step cfg dev) (IoUnits.StepFits cfg dev) { stat } reqs) :
    AllSteps (IoUnits.step cfg dev) (IoUnits.NoDecrease cfg dev) { stat } reqs ∧
        AllStates (IoUnits.step cfg dev) (IoUnits.FlushCovers cfg) { stat } reqs ↔
      AllSteps (IoUnits.step cfg dev) (IoUnits.StepClear cfg dev) { stat } reqs := by
  have hsize : 0 < cfg.ioUnitSize := by
    unfold IoUnitConfig.ioUnitSize
    rw [Nat.one_shiftLeft, u32_of_lt (Nat.pow_lt_pow_right (by decide) hshift)]
    exact Nat.two_pow_pos _
  constructor
  · rintro ⟨hmono, -⟩ l req hl
    exact (IoUnits.noDecrease_iff_clear hnr hsize (hfit l req hl)).mp (hmono l req hl)
  · intro hclear
    have hmono : AllSteps (IoUnits.step cfg dev) (IoUnits.NoDecrease cfg dev) { stat } reqs :=
      fun l req hl => (IoUnits.noDecrease_iff_clear hnr hsize (hfit l req hl)).mpr (hclear l req hl)
    have hboth : AllSteps (IoUnits.step cfg dev)
        (fun s req => IoUnits.StepFits cfg dev s req ∧ IoUnits.NoDecrease cfg dev s req) { stat } reqs :=
      fun l req hl => ⟨hfit l req hl, hmono l req hl⟩
    have hcovered : AllStates (IoUnits.step cfg dev) (IoUnits.Covered cfg) { stat } reqs :=
      invariant (fun target ht => by cases ht) hboth fun s req h hb => h.step hnr hsize hb.1 hb.2
    exact ⟨hmono, fun l hl => (hcovered l hl).flush⟩

namespace IoUnits

/-- Two units of 4 KiB, where a write takes 100 ns. -/
def twoUnits : IoUnitConfig :=
  { nrIoUnits := 2, ioUnitShift := 12, readDelay := 0, readTime := 10, readTrailing := 0, writeDelay := 0
    writeTime := 100, writeTrailing := 0 }

/-- A write of `n` units from `lba` on. -/
def writeUnits (lba n : Nat) : IoUnitRequest :=
  { opcode := .write, lba, length := n * 4096, nsecsStart := 0 }

/-- Two writes to all units, one after the other. -/
theorem io_units_never_move_back_writes :
    AllSteps (step twoUnits .nvm) (NoDecrease twoUnits .nvm) { stat := fun _ => 0 }
        [writeUnits 0 2, writeUnits 8 2] ∧
      AllStates (step twoUnits .nvm) (FlushCovers twoUnits) { stat := fun _ => 0 }
        [writeUnits 0 2, writeUnits 8 2] :=
  (io_units_never_move_back .nvm (by decide) (by decide) _ (by decide)).mpr (by decide)

/-- Three writes to the second unit, and one to both: it finds the first unit idle, and moves the second
one back. A flush is done before the third write. -/
theorem spanning_write_moves_back :
    ¬ (AllSteps (step twoUnits .nvm) (NoDecrease twoUnits .nvm) { stat := fun _ => 0 }
        [writeUnits 8 1, writeUnits 8 1, writeUnits 8 1, writeUnits 0 2] ∧
      AllStates (step twoUnits .nvm) (FlushCovers twoUnits) { stat := fun _ => 0 }
        [writeUnits 8 1, writeUnits 8 1, writeUnits 8 1, writeUnits 0 2]) := by
  rintro ⟨-, hflush⟩
  have h := hflush _ (List.prefix_refl _) 300 (by decide)
  revert h
  decide

end IoUnits

end Nvmev
