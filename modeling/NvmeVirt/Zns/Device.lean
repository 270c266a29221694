import NvmeVirt.Zns.ReadWrite

/-!
# A zoned device with its internal operations

The handlers schedule internal operations, which an I/O worker completes later: it gives bytes back to
the buffer of the operation. `ZnsDevice` is the FTL with the operations that are scheduled and not yet
completed; its events are the commands, and the completions in any order.
-/

namespace Nvmev

open CInt Outcome

variable {τ : Type}

/-- The FTL after `zns_proc_nvme_io_cmd`, and the internal operations that it scheduled. -/
def znsProcScheduled (B : PerfModel τ) (z : ZnsFtl τ) :
    ZnsRequest → Except Bug (ZnsFtl τ × List InternalOp)
  | .rw req => match req.cmd.opcode with
    | .write | .zoneAppend => do
      let o ← znsWrite B z req
      pure (o.ftl, o.ops)
    | .read => .ok ((znsRead B z req).ftl, [])
    | .flush => .ok ((znsFlush B z).2, [])
    | _ => .ok (z, [])
  | .zoneMgmtSend cmd nsecsStart junk => do
    let (_, z) ← znsZmgmtSend z junk cmd nsecsStart
    pure (z, [])

/-- `buffer_release` of an internal operation, in `nvmev_io_worker`. -/
def releaseInternal (z : ZnsFtl τ) (op : InternalOp) : ZnsFtl τ :=
  z.setBuffer (bufferRelease (z.buffer op.writeBuffer) op.buffsToRelease) op.writeBuffer

section Release

variable (z : ZnsFtl τ) (op : InternalOp)

@[simp] theorem releaseInternal_sp : (releaseInternal z op).ssd.sp = z.ssd.sp := by
  unfold releaseInternal
  cases op.writeBuffer <;> rfl

@[simp] theorem releaseInternal_zp : (releaseInternal z op).zp = z.zp := by
  unfold releaseInternal
  cases op.writeBuffer <;> rfl

@[simp] theorem releaseInternal_zoneDescs : (releaseInternal z op).zoneDescs = z.zoneDescs := by
  unfold releaseInternal
  cases op.writeBuffer <;> rfl

@[simp] theorem releaseInternal_resInfos : (releaseInternal z op).resInfos = z.resInfos := by
  unfold releaseInternal
  cases op.writeBuffer <;> rfl

end Release

/-- The FTL and the internal operations that are not completed. -/
structure ZnsDevice (τ : Type) where
  ftl : ZnsFtl τ
  pending : List InternalOp := []

/-- A command, or the completion of the `i`-th pending internal operation. -/
inductive ZnsEvent where
  | command (req : ZnsRequest)
  | complete (i : Nat)
  deriving DecidableEq, Repr

/-- `P` of the command, if the event is one. -/
def ZnsEvent.IfCommand (P : ZnsRequest → Prop) : ZnsEvent → Prop
  | .command req => P req
  | .complete _ => True

instance (P : ZnsRequest → Prop) [DecidablePred P] : DecidablePred (ZnsEvent.IfCommand P)
  | .command req => inferInstanceAs (Decidable (P req))
  | .complete _ => .isTrue trivial

/-- One event. The completion of an operation that is not there does nothing. -/
def ZnsDevice.step (B : PerfModel τ) (s : ZnsDevice τ) : ZnsEvent → Except Bug (ZnsDevice τ)
  | .command req => do
    let (ftl, ops) ← znsProcScheduled B s.ftl req
    pure { ftl, pending := s.pending ++ ops }
  | .complete i => match s.pending[i]? with
    | some op => .ok { ftl := releaseInternal s.ftl op, pending := s.pending.eraseIdx i }
    | none => .ok s

/-- The FTL part is `zns_proc_nvme_io_cmd`. -/
theorem znsProcScheduled_ftl (B : PerfModel τ) (z : ZnsFtl τ) (req : ZnsRequest) :
    (znsProcScheduled B z req).map Prod.fst = znsProcNvmeIoCmd B z req := by
  cases req with
  | rw req =>
    unfold znsProcScheduled znsProcNvmeIoCmd
    dsimp only
    generalize req.cmd.opcode = opcode
    cases opcode
    case write => cases znsWrite B z req <;> rfl
    case zoneAppend => cases znsWrite B z req <;> rfl
    all_goals rfl
  | zoneMgmtSend cmd nsecsStart junk =>
    unfold znsProcScheduled znsProcNvmeIoCmd
    dsimp only
    cases znsZmgmtSend z junk cmd nsecsStart <;> rfl

theorem znsProcScheduled_ok {B : PerfModel τ} {z z' : ZnsFtl τ} {req : ZnsRequest}
    {ops : List InternalOp} (h : znsProcScheduled B z req = .ok (z', ops)) :
    znsProcNvmeIoCmd B z req = .ok z' := by
  rw [← znsProcScheduled_ftl, h]
  rfl

theorem znsProcScheduled_error {B : PerfModel τ} {z : ZnsFtl τ} {req : ZnsRequest} {e : Bug} :
    znsProcScheduled B z req = .error e ↔ znsProcNvmeIoCmd B z req = .error e := by
  rw [← znsProcScheduled_ftl]
  cases znsProcScheduled B z req <;> simp [Except.map]

theorem ZnsDevice.step_command_error {B : PerfModel τ} {s : ZnsDevice τ} {req : ZnsRequest} {e : Bug} :
    s.step B (.command req) = .error e ↔ znsProcNvmeIoCmd B s.ftl req = .error e := by
  rw [← znsProcScheduled_error]
  unfold ZnsDevice.step
  cases h : znsProcScheduled B s.ftl req <;> simp [h, bind, Except.bind, pure, Except.pure]

/-- One event on the FTL: a command is `zns_proc_nvme_io_cmd`, and a completion is the release. -/
theorem ZnsDevice.step_avoids {bad : Bug → Prop} {I : ZnsFtl τ → Prop} {B : PerfModel τ} {s : ZnsDevice τ}
    {event : ZnsEvent} (h : I s.ftl)
    (command : ∀ req, event = .command req → Avoids bad (znsProcNvmeIoCmd B s.ftl req) I)
    (release : ∀ op, I (releaseInternal s.ftl op)) :
    Avoids bad (s.step B event) fun s' => I s'.ftl := by
  cases event with
  | command req =>
    have hcmd := command req rfl
    refine ⟨fun e he => hcmd.safe e (ZnsDevice.step_command_error.mp he), fun s' hs' => ?_⟩
    obtain ⟨⟨z', ops⟩, hz', hs'⟩ := bind_ok.mp hs'
    cases hs'
    exact hcmd.post z' (znsProcScheduled_ok hz')
  | complete i =>
    unfold ZnsDevice.step
    dsimp only
    split
    · exact .ret (release _)
    · exact .ret h

theorem ZnsDevice.step_partial {I : ZnsFtl τ → Prop} {B : PerfModel τ} {s : ZnsDevice τ}
    {event : ZnsEvent} (h : I s.ftl)
    (command : ∀ req, event = .command req → Partial (znsProcNvmeIoCmd B s.ftl req) I)
    (release : ∀ op, I (releaseInternal s.ftl op)) :
    Partial (s.step B event) fun s' => I s'.ftl := by
  have hstep : Avoids (fun _ => False) (s.step B event) fun s' => I s'.ftl :=
    ZnsDevice.step_avoids h (fun req he => ⟨fun _ _ => id, command req he⟩) release
  exact hstep.post

end Nvmev
