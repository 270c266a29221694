import NvmeVirt.Admin.Commands

/-!
# The controller registers

`nvmev_proc_bars` (`pci.c`) compares the registers with the values that it saw last, and handles one
change in each call. `Controller` is the device with its registers; its events are the writes of the host
and the calls of the dispatcher, in any order.

`admin_queue_reset_iff`: a call that sets `CSTS.RDY` leaves the admin queue and its doorbells reset exactly
if, since the last time the host rang a doorbell or a command was processed, the calls saw the changes
that reset the head, the phase and the two doorbells. A register that is written again with its old value
is no change.
-/

namespace Nvmev

open Function Outcome

/-- `struct nvme_ctrl_regs`: the registers that the host writes. -/
structure CtrlRegs where
  aqa : Nat := 0
  asq : Nat := 0
  acq : Nat := 0
  cc : Nat := 0
  deriving DecidableEq, Repr

namespace CtrlRegs

variable (bar : CtrlRegs)

/-- `aqa.asqs`. -/
def asqs : Nat := bar.aqa % 2 ^ 12

/-- `aqa.acqs`. -/
def acqs : Nat := (bar.aqa >>> 16) % 2 ^ 12

/-- `cc.en`. -/
def en : Nat := bar.cc % 2

/-- `cc.shn`. -/
def shn : Nat := (bar.cc >>> 14) % 2 ^ 2

end CtrlRegs

/-- The device with its registers, those that `nvmev_proc_bars` saw last, and `CSTS`. -/
structure Controller where
  dev : AdminDev
  bar : CtrlRegs := {}
  oldBar : CtrlRegs := {}
  rdy : Bool := false
  shst : Nat := 0

/-- The memory of the host at an address: the entries of a submission ring and of a completion ring. -/
structure HostRings where
  sq : Nat → Nat → AdminCommand
  cq : Nat → Nat → NvmeCompletion

namespace Controller

/-- `nvmev_vdev->dbs[0] = nvmev_vdev->old_dbs[0] = 0`, and the same for the completion doorbell. -/
def resetDoorbells (d : AdminDev) : AdminDev := (d.resetDbs 0).resetDbs 1

/-- `nvmev_proc_bars`, without its return value. -/
def nvmevProcBars (mem : HostRings) (c : Controller) : Except Bug Controller :=
  let bar := c.bar
  if c.oldBar.aqa ≠ bar.aqa then
    let queue : AdminQueue := c.dev.adminQ.getD
      { phase := false, sqDepth := 0, cqDepth := 0, cqHead := 0, nvmeSq := none, nvmeCq := none }
    let queue := { queue with
      cqHead := 0, phase := true, sqDepth := bar.asqs + 1, cqDepth := bar.acqs + 1 }
    .ok { c with
      oldBar := { c.oldBar with aqa := bar.aqa }
      dev := resetDoorbells { c.dev with adminQ := some queue } }
  else if c.oldBar.asq ≠ bar.asq then
    match c.dev.adminQ with
    | none => .ok c
    | some queue =>
      let queue := { queue with sqDepth := bar.asqs + 1, nvmeSq := some (mem.sq bar.asq) }
      .ok { c with
        oldBar := { c.oldBar with asq := bar.asq }
        dev := { c.dev with adminQ := some queue }.resetDbs 0 }
  else if c.oldBar.acq ≠ bar.acq then
    match c.dev.adminQ with
    | none => .ok c
    | some queue =>
      let queue := { queue with
        cqDepth := bar.acqs + 1, cqHead := 0, phase := true, nvmeCq := some (mem.cq bar.acq) }
      .ok { c with
        oldBar := { c.oldBar with acq := bar.acq }
        dev := { c.dev with adminQ := some queue }.resetDbs 1 }
  else if c.oldBar.cc ≠ bar.cc then do
    let c := if bar.en = 1 then (if c.dev.adminQ.isSome then { c with rdy := true } else c)
      else { c with rdy := false }
    let c ← if bar.shn = 1 then
        match c.dev.adminQ with
        | none => .error (.nullPointer .nvmevProcBars)
        | some queue => .ok { c with
            shst := 2
            dev := { resetDoorbells c.dev with adminQ := some { queue with cqHead := 0 } } }
      else .ok c
    pure { c with oldBar := { c.oldBar with cc := bar.cc } }
  else .ok c

/-- The part of `nvmev_proc_dbs` for the admin queue. -/
def procAdminDbs (ring : Nat → Nat → NvmeCompletion) (d : AdminDev) : Except Bug AdminDev := do
  let newDb := d.dbs 0
  let d ← if newDb ≠ d.oldDbs 0 then do
      let d ← nvmevProcAdminSq ring d newDb (d.oldDbs 0)
      pure { d with oldDbs := update d.oldDbs 0 newDb }
    else pure d
  pure { d with oldDbs := update d.oldDbs 1 (d.dbs 1) }

end Controller

/-- What can happen next. -/
inductive CtrlEvent where
  /-- The host writes a register. -/
  | writeAqa (value : Nat)
  | writeAsq (value : Nat)
  | writeAcq (value : Nat)
  | writeCc (value : Nat)
  /-- The host writes its entries of the admin submission queue. -/
  | writeSq (sq : Nat → AdminCommand)
  /-- The host rings the doorbell of the admin submission queue or of the admin completion queue. -/
  | ringSq (value : Nat)
  | ringCq (value : Nat)
  /-- `nvmev_proc_bars`, when the memory of the host is `mem`. -/
  | procBars (mem : HostRings)
  /-- `nvmev_proc_dbs`, for the admin queue. -/
  | procDbs (ring : Nat → Nat → NvmeCompletion)

namespace Controller

/-- One event. -/
def step (c : Controller) : CtrlEvent → Except Bug Controller
  | .writeAqa value => .ok { c with bar := { c.bar with aqa := value } }
  | .writeAsq value => .ok { c with bar := { c.bar with asq := value } }
  | .writeAcq value => .ok { c with bar := { c.bar with acq := value } }
  | .writeCc value => .ok { c with bar := { c.bar with cc := value } }
  | .writeSq sq => .ok { c with
      dev := { c.dev with
        adminQ := c.dev.adminQ.map fun q => { q with nvmeSq := q.nvmeSq.map fun _ => sq } } }
  | .ringSq value => .ok { c with dev := { c.dev with dbs := update c.dev.dbs 0 value } }
  | .ringCq value => .ok { c with dev := { c.dev with dbs := update c.dev.dbs 1 value } }
  | .procBars mem => c.nvmevProcBars mem
  | .procDbs ring => do
    let dev ← procAdminDbs ring c.dev
    pure { c with dev }

/-! ## The changes that a call sees -/

/-- The call sees `AQA` change. -/
def SeesAqa (c : Controller) : Prop := c.oldBar.aqa ≠ c.bar.aqa

instance (c : Controller) : Decidable c.SeesAqa := inferInstanceAs (Decidable (_ ≠ _))

/-- The call sees `ASQ` change, and there is a queue. -/
def SeesAsq (c : Controller) : Prop :=
  c.oldBar.aqa = c.bar.aqa ∧ c.oldBar.asq ≠ c.bar.asq ∧ c.dev.adminQ.isSome

/-- The call sees `ACQ` change, and there is a queue. -/
def SeesAcq (c : Controller) : Prop :=
  c.oldBar.aqa = c.bar.aqa ∧ c.oldBar.asq = c.bar.asq ∧ c.oldBar.acq ≠ c.bar.acq ∧ c.dev.adminQ.isSome

/-- The call sees `CC` change. -/
def SeesCc (c : Controller) : Prop :=
  c.oldBar.aqa = c.bar.aqa ∧ c.oldBar.asq = c.bar.asq ∧ c.oldBar.acq = c.bar.acq ∧ c.oldBar.cc ≠ c.bar.cc

/-- The call sees a shutdown. -/
def SeesShutdown (c : Controller) : Prop := c.SeesCc ∧ c.bar.shn = 1

/-- The call sets `CSTS.RDY`. -/
def SetsReady (c : Controller) : Prop := c.SeesCc ∧ c.bar.en = 1 ∧ c.dev.adminQ.isSome

/-- The event is a call that sees `P`. -/
def CallSees (P : Controller → Prop) (c : Controller) : CtrlEvent → Prop
  | .procBars _ => P c
  | _ => False

/-- The host rings no doorbell, and the dispatcher finds none. -/
def Quiet (c : Controller) : CtrlEvent → Prop
  | .ringSq _ | .ringCq _ => False
  | .procDbs _ => c.dev.dbs 0 = c.dev.oldDbs 0 ∧ c.dev.dbs 1 = c.dev.oldDbs 1
  | _ => True

instance (c : Controller) : DecidablePred c.Quiet
  | .writeAqa _ | .writeAsq _ | .writeAcq _ | .writeCc _ | .writeSq _ | .procBars _ => .isTrue trivial
  | .ringSq _ | .ringCq _ => .isFalse id
  | .procDbs _ => inferInstanceAs (Decidable (_ ∧ _))

/-- `cq_head` is 0, if there is a queue. -/
def HeadReset (c : Controller) : Prop := ∀ q ∈ c.dev.adminQ, q.cqHead = 0

/-- `phase` is 1, if there is a queue. -/
def PhaseReset (c : Controller) : Prop := ∀ q ∈ c.dev.adminQ, q.phase = true

/-- A doorbell and its copy are 0. -/
def DbReset (idx : Nat) (c : Controller) : Prop := c.dev.dbs idx = 0 ∧ c.dev.oldDbs idx = 0

/-- The admin queue and its doorbells are as after an initialisation. -/
structure AdminReset (c : Controller) : Prop where
  queue : c.dev.adminQ.isSome
  cqHead : c.HeadReset
  phase : c.PhaseReset
  sqDb : c.DbReset 0
  cqDb : c.DbReset 1

/-- What a call does to the queue and the doorbells. -/
structure BarsEffect (c c' : Controller) : Prop where
  queue : c.dev.adminQ.isSome → c'.dev.adminQ.isSome
  cqHead : c'.HeadReset ↔ (c.SeesAqa ∨ c.SeesAcq ∨ c.SeesShutdown) ∨ c.HeadReset
  phase : c'.PhaseReset ↔ (c.SeesAqa ∨ c.SeesAcq) ∨ c.PhaseReset
  sqDb : c'.DbReset 0 ↔ (c.SeesAqa ∨ c.SeesAsq ∨ c.SeesShutdown) ∨ c.DbReset 0
  cqDb : c'.DbReset 1 ↔ (c.SeesAqa ∨ c.SeesAcq ∨ c.SeesShutdown) ∨ c.DbReset 1

variable {c c' : Controller}

/-- A call that sees no change of the queue. -/
theorem BarsEffect.none (haqa : ¬ c.SeesAqa) (hasq : ¬ c.SeesAsq) (hacq : ¬ c.SeesAcq)
    (hshn : ¬ c.SeesShutdown) (hdev : c'.dev = c.dev) : BarsEffect c c' := by
  constructor <;> simp [HeadReset, PhaseReset, DbReset, *]

theorem nvmevProcBars_effect {mem : HostRings} (h : c.nvmevProcBars mem = .ok c') : BarsEffect c c' := by
  unfold nvmevProcBars at h
  dsimp only at h
  by_cases haqa : c.oldBar.aqa = c.bar.aqa
  swap
  · rw [if_pos haqa] at h
    cases h
    have hs : c.SeesAqa := haqa
    constructor <;> simp [HeadReset, PhaseReset, DbReset, hs, resetDoorbells, AdminDev.resetDbs]
  rw [if_neg (not_not.mpr haqa)] at h
  have hnaqa : ¬ c.SeesAqa := not_not.mpr haqa
  by_cases hasq : c.oldBar.asq = c.bar.asq
  swap
  · rw [if_pos hasq] at h
    have hnacq : ¬ c.SeesAcq := fun hs => hasq hs.2.1
    have hnshn : ¬ c.SeesShutdown := fun hs => hasq hs.1.2.1
    cases hq : c.dev.adminQ with
    | none =>
      rw [hq] at h
      cases h
      exact .none hnaqa (fun hs => by simpa [hq] using hs.2.2) hnacq hnshn rfl
    | some queue =>
      rw [hq] at h
      cases h
      have hs : c.SeesAsq := ⟨haqa, hasq, by rw [hq]; rfl⟩
      constructor <;> simp [HeadReset, PhaseReset, DbReset, hs, hnaqa, hnacq, hnshn, hq, AdminDev.resetDbs]
  rw [if_neg (not_not.mpr hasq)] at h
  have hnasq : ¬ c.SeesAsq := fun hs => hs.2.1 hasq
  by_cases hacq : c.oldBar.acq = c.bar.acq
  swap
  · rw [if_pos hacq] at h
    have hnshn : ¬ c.SeesShutdown := fun hs => hacq hs.1.2.2.1
    cases hq : c.dev.adminQ with
    | none =>
      rw [hq] at h
      cases h
      exact .none hnaqa hnasq (fun hs => by simpa [hq] using hs.2.2.2) hnshn rfl
    | some queue =>
      rw [hq] at h
      cases h
      have hs : c.SeesAcq := ⟨haqa, hasq, hacq, by rw [hq]; rfl⟩
      constructor <;> simp [HeadReset, PhaseReset, DbReset, hs, hnaqa, hnasq, hnshn, hq, AdminDev.resetDbs]
  rw [if_neg (not_not.mpr hacq)] at h
  have hnacq : ¬ c.SeesAcq := fun hs => hs.2.2.1 hacq
  by_cases hcc : c.oldBar.cc = c.bar.cc
  · rw [if_neg (not_not.mpr hcc)] at h
    cases h
    exact .none hnaqa hnasq hnacq (fun hs => hs.1.2.2.2 hcc) rfl
  rw [if_pos hcc] at h
  -- the enable bit changes `CSTS` only
  have hdev (x y : Prop) [Decidable x] [Decidable y] :
      (if x then (if y then { c with rdy := true } else c) else { c with rdy := false }).dev = c.dev := by
    split
    · split <;> rfl
    · rfl
  by_cases hshn : c.bar.shn = 1
  · rw [if_pos hshn, hdev] at h
    have hs : c.SeesShutdown := ⟨⟨haqa, hasq, hacq, hcc⟩, hshn⟩
    cases hq : c.dev.adminQ with
    | none =>
      rw [hq] at h
      cases h
    | some queue =>
      rw [hq] at h
      cases h
      constructor <;>
        simp [HeadReset, PhaseReset, DbReset, hs, hnaqa, hnasq, hnacq, hq, resetDoorbells, AdminDev.resetDbs]
  · rw [if_neg hshn] at h
    cases h
    exact .none hnaqa hnasq hnacq (fun hs => hshn hs.2) (hdev _ _)

/-- The other events that are quiet leave the queue and the doorbells alone. -/
structure Unchanged (c c' : Controller) : Prop where
  queue : c.dev.adminQ.isSome → c'.dev.adminQ.isSome
  cqHead : c'.HeadReset ↔ c.HeadReset
  phase : c'.PhaseReset ↔ c.PhaseReset
  dbs : ∀ idx, c'.DbReset idx ↔ c.DbReset idx

theorem step_quiet {e : CtrlEvent} (hq : c.Quiet e) (h : c.step e = .ok c') :
    ((∀ P, CallSees P c e ↔ P c) ∧ BarsEffect c c') ∨ ((∀ P, ¬ CallSees P c e) ∧ Unchanged c c') := by
  cases e with
  | writeAqa | writeAsq | writeAcq | writeCc =>
    cases h
    exact .inr ⟨fun _ hs => hs, id, .rfl, .rfl, fun _ => .rfl⟩
  | writeSq sq =>
    cases h
    refine .inr ⟨fun _ hs => hs, ?_, ?_, ?_, fun _ => .rfl⟩
    · simp
    · simp [HeadReset]
    · simp [PhaseReset]
  | ringSq | ringCq => cases hq
  | procBars mem => exact .inl ⟨fun _ => .rfl, nvmevProcBars_effect h⟩
  | procDbs ring =>
    obtain ⟨hsq, hcq⟩ := hq
    have hdev : procAdminDbs ring c.dev =
        .ok { c.dev with oldDbs := update c.dev.oldDbs 1 (c.dev.dbs 1) } := by
      unfold procAdminDbs
      rw [if_neg (not_not.mpr hsq)]
      rfl
    unfold step at h
    dsimp only at h
    rw [hdev, hcq, update_eq_self] at h
    cases h
    exact .inr ⟨fun _ hs => hs, id, .rfl, .rfl, fun _ => .rfl⟩

/-- In the run over `events` from `s`, some call resets the head, unless it is 0 already, and likewise the
phase and the doorbells. -/
structure ResetSince (s : Controller) (events : List CtrlEvent) : Prop where
  cqHead : Sometimes step (CallSees fun c => c.SeesAqa ∨ c.SeesAcq ∨ c.SeesShutdown) s events ∨ s.HeadReset
  phase : Sometimes step (CallSees fun c => c.SeesAqa ∨ c.SeesAcq) s events ∨ s.PhaseReset
  sqDb : Sometimes step (CallSees fun c => c.SeesAqa ∨ c.SeesAsq ∨ c.SeesShutdown) s events ∨ s.DbReset 0
  cqDb : Sometimes step (CallSees fun c => c.SeesAqa ∨ c.SeesAcq ∨ c.SeesShutdown) s events ∨ s.DbReset 1

/-- After quiet events, the queue is reset exactly if each part of it was. -/
theorem adminReset_iff {s : Controller} {events : List CtrlEvent} (hrun : events.foldlM step s = .ok c)
    (hquiet : Always step Quiet s events) :
    c.AdminReset ↔ c.dev.adminQ.isSome ∧ ResetSince s events := by
  have latch {g P : Controller → Prop}
      (hg : ∀ c c', BarsEffect c c' → (g c' ↔ P c ∨ g c)) (hu : ∀ c c', Unchanged c c' → (g c' ↔ g c)) :
      g c ↔ Sometimes step (CallSees P) s events ∨ g s := by
    refine Partial.latch hrun hquiet fun c e c' hq h => ?_
    obtain ⟨hs, heff⟩ | ⟨hs, hsame⟩ := step_quiet hq h
    · rw [hs, hg c c' heff]
    · rw [hu c c' hsame]
      exact ⟨.inr, fun hor => hor.resolve_left (hs P)⟩
  have hhead := latch (fun _ _ h => h.cqHead) fun _ _ h => h.cqHead
  have hphase := latch (fun _ _ h => h.phase) fun _ _ h => h.phase
  have hsq := latch (fun _ _ h => h.sqDb) fun _ _ h => h.dbs 0
  have hcq := latch (fun _ _ h => h.cqDb) fun _ _ h => h.dbs 1
  constructor
  · intro h
    exact ⟨h.queue, hhead.mp h.cqHead, hphase.mp h.phase, hsq.mp h.sqDb, hcq.mp h.cqDb⟩
  · rintro ⟨hq, h⟩
    exact ⟨hq, hhead.mpr h.cqHead, hphase.mpr h.phase, hsq.mpr h.sqDb, hcq.mpr h.cqDb⟩

/-- A call that sets `CSTS.RDY`. -/
theorem SetsReady.rdy (hset : c.SetsReady) {mem : HostRings} (h : c.nvmevProcBars mem = .ok c') :
    c'.rdy = true ∧ c'.dev.adminQ.isSome := by
  obtain ⟨⟨haqa, hasq, hacq, hcc⟩, hen, hq⟩ := hset
  refine ⟨?_, (nvmevProcBars_effect h).queue hq⟩
  unfold nvmevProcBars at h
  dsimp only at h
  rw [if_neg (not_not.mpr haqa), if_neg (not_not.mpr hasq), if_neg (not_not.mpr hacq), if_pos hcc,
    if_pos hen, if_pos hq] at h
  obtain ⟨queue, hqueue⟩ := Option.isSome_iff_exists.mp hq
  by_cases hshn : c.bar.shn = 1
  · rw [if_pos hshn] at h
    dsimp only at h
    rw [hqueue] at h
    cases h
    rfl
  · rw [if_neg hshn] at h
    cases h
    rfl

end Controller

/-- From any state, after any events in which the host rings no doorbell and no command is processed: a
call that sets `CSTS.RDY` to 1 leaves the admin queue reset exactly if the calls since then saw what resets
each part of it that was not reset already. -/
theorem admin_queue_reset_iff {s s' c : Controller} {events : List CtrlEvent} {mem : HostRings}
    (hrun : events.foldlM Controller.step s = .ok s') (hset : s'.SetsReady)
    (hcall : s'.nvmevProcBars mem = .ok c)
    (hquiet : Always Controller.step Controller.Quiet s (events ++ [.procBars mem])) :
    c.rdy = true ∧ (c.AdminReset ↔ Controller.ResetSince s (events ++ [.procBars mem])) := by
  obtain ⟨hrdy, hq⟩ := hset.rdy hcall
  have hlast : s'.step (.procBars mem) = .ok c := hcall
  have hall : (events ++ [CtrlEvent.procBars mem]).foldlM Controller.step s = .ok c := by
    rw [List.foldlM_append, hrun, ok_bind, List.foldlM_cons, hlast]
    rfl
  refine ⟨hrdy, ?_⟩
  rw [Controller.adminReset_iff hall hquiet]
  exact and_iff_right hq

namespace Controller

/-- A controller that was just loaded. -/
def loaded : Controller where
  dev := { adminQ := none, sqes := fun _ => none, cqes := fun _ => none, dbs := fun _ => 0
           oldDbs := fun _ => 0, nrSq := 0, nrCq := 0, ns := [], mdts := 5, room := fun _ => 0 }

/-- The memory of the host: commands with an opcode that is not handled, and cleared completions. -/
def hostRings : HostRings where
  sq _ _ := { opcode := .formatNvm, commandId := 1 }
  cq _ := clearedQueue

/-- The host sets the registers up, with rings of `depth` entries, and enables the controller. -/
def initialise (depth : Nat) : List CtrlEvent :=
  [.writeAqa (depth - 1 + (depth - 1) <<< 16), .writeAsq 0x1000, .writeAcq 0x2000, .procBars hostRings,
    .procBars hostRings, .procBars hostRings, .writeCc 1, .procBars hostRings]

/-- The host submits one command and takes its completion. -/
def submitOne (slot : Nat) : List CtrlEvent :=
  [.ringSq slot, .procDbs fun _ => clearedQueue, .ringCq slot, .procDbs fun _ => clearedQueue]

/-- The host writes `cc` to `CC`, and the dispatcher sees it. -/
def disable (cc : Nat) : List CtrlEvent := [.writeCc cc, .procBars hostRings]

/-- A controller that is enabled, after one command. -/
def used : Controller where
  dev := { loaded.dev with
    adminQ := some { phase := false, sqDepth := 2, cqDepth := 2, cqHead := 1, nvmeSq := none, nvmeCq := none }
    dbs := fun _ => 1
    oldDbs := fun _ => 1 }
  bar := { aqa := 0x10001, cc := 1 }
  oldBar := { aqa := 0x10001, cc := 1 }
  rdy := true

/-- The host disables the controller, doubles the depths and enables it again. -/
def resize : List CtrlEvent := disable 0 ++ [.writeAqa 0x30003, .procBars hostRings, .writeCc 1]

theorem admin_queue_reset_iff_resize : ∃ c,
    (resize ++ [CtrlEvent.procBars hostRings]).foldlM step used = .ok c ∧ c.rdy = true ∧ c.AdminReset := by
  -- the fourth event sees the new value of `AQA`
  have hseen (P : Controller → Prop) (hP : ∀ c, c.SeesAqa → P c) :
      Sometimes step (CallSees P) used (resize ++ [.procBars hostRings]) :=
    .inr ⟨_, rfl, .inr ⟨_, rfl, .inr ⟨_, rfl, .inl (hP _ (by decide))⟩⟩⟩
  have hquiet : Always step Quiet used (resize ++ [.procBars hostRings]) := by decide
  have h := admin_queue_reset_iff (rfl : resize.foldlM step used = .ok _)
    ⟨⟨rfl, rfl, rfl, by decide⟩, rfl, rfl⟩ rfl hquiet
  exact ⟨_, rfl, h.1, h.2.mpr
    ⟨.inl (hseen _ fun _ => .inl), .inl (hseen _ fun _ => .inl), .inl (hseen _ fun _ => .inl),
      .inl (hseen _ fun _ => .inl)⟩⟩

/-- A controller that is used, and then set up again with the same values: the head of the completion
queue and the doorbells are where they were. -/
theorem reinitialise_keeps_queue : ∃ c,
    (initialise 2 ++ submitOne 1 ++ disable 0 ++ initialise 2).foldlM step loaded = .ok c ∧
      c.rdy = true ∧ ¬ c.AdminReset := by
  refine ⟨_, rfl, rfl, fun h => ?_⟩
  exact absurd (h.cqHead _ rfl) (by decide)

/-- With a shutdown before, the phase is the one of the last completion. -/
example : ∃ c,
    (initialise 3 ++ submitOne 1 ++ submitOne 2 ++ submitOne 0 ++ disable 0x4000 ++ initialise 3).foldlM step
      loaded = .ok c ∧ c.rdy = true ∧ c.dev.adminQ.map AdminQueue.phase = some false :=
  ⟨_, rfl, rfl, rfl⟩

end Controller

end Nvmev
