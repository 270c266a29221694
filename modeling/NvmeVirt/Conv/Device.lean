import NvmeVirt.Conv.Io

/-!
# A conventional device with its internal operations

`conv_write` schedules internal operations, which an I/O worker completes later: it gives bytes back to
the write buffer. `ConvDevice` is the namespace with the operations that are scheduled and not yet
completed; its events are the commands, and the completions in any order.

`convWrite_spec` is the rule for a write command: what its loop does to the partitions, the command does
to the namespace.
-/

namespace Nvmev

open CInt Function Outcome

variable {τ : Type}

/-- The namespace and the internal operations that are not completed. -/
structure ConvDevice (τ : Type) where
  ns : ConvNs τ
  pending : List InternalOp := []

/-- A command, or the completion of the `i`-th pending internal operation. -/
inductive ConvEvent where
  | command (req : RwRequest)
  | complete (i : Nat)
  deriving DecidableEq, Repr

/-- One event. The partitions share one write buffer, to which every operation releases
(`nvmev_io_worker`). The completion of an operation that is not there does nothing. -/
def ConvDevice.step (B : Nat → PerfModel τ) (s : ConvDevice τ) : ConvEvent → Except Bug (ConvDevice τ)
  | .command req => do
    let o ← convProcNvmeIoCmd B s.ns req
    pure { ns := o.ftl, pending := s.pending ++ o.ops }
  | .complete i => match s.pending[i]? with
    | some op => .ok { ns := { s.ns with writeBuffer := bufferRelease s.ns.writeBuffer op.buffsToRelease }
                       pending := s.pending.eraseIdx i }
    | none => .ok s

/-! ## Writes -/

/-- The first and the last logical page of a command. -/
def startLpn (ns : ConvNs τ) (req : RwRequest) : Nat := u64 req.cmd.slba / (ns.ftls 0).sp.secsPerPg

@[inherit_doc startLpn]
def endLpn (ns : ConvNs τ) (req : RwRequest) : Nat :=
  u64 (req.cmd.slba + req.cmd.nrLbas - 1) / (ns.ftls 0).sp.secsPerPg

/-- `conv_write` takes the command: it ends inside the FTL, and there is room in the write buffer. -/
structure Accepts (ns : ConvNs τ) (req : RwRequest) : Prop where
  range : endLpn ns req / ns.nrParts < (ns.ftls 0).sp.ttPgs
  room : req.cmd.nrLbas * 512 ≤ ns.writeBuffer.remaining

instance (ns : ConvNs τ) (req : RwRequest) : Decidable (Accepts ns req) :=
  decidable_of_iff (endLpn ns req / ns.nrParts < (ns.ftls 0).sp.ttPgs ∧
      req.cmd.nrLbas * 512 ≤ ns.writeBuffer.remaining)
    ⟨fun h => ⟨h.1, h.2⟩, fun h => ⟨h.range, h.room⟩⟩

/-- What `conv_write` leaves; `J` holds after its loop. -/
inductive WriteOutcome (ns : ConvNs τ) (req : RwRequest) (J : WriteLoop τ → Prop) :
    IoOutcome (ConvNs τ) → Prop where
  | refused {ret : Result} (h : ¬ Accepts ns req) :
    WriteOutcome ns req J { accepted := false, ftl := ns, cmd := req.cmd, ret }
  | done {ret : Result} (h : Accepts ns req) (s : WriteLoop τ) (hs : J s) :
    WriteOutcome ns req J
      { accepted := true, cmd := req.cmd, ret, ops := s.ops
        ftl := { ns with
          writeBuffer := { ns.writeBuffer with
            remaining := ns.writeBuffer.remaining - req.cmd.nrLbas * 512 }
          ftls := s.ftls, perf := s.perf } }

theorem bufferAllocate_spec {S : Prop} {buf : Buffer} {size : Nat} (h : S → size ≤ buf.size)
    (hs : size < 2 ^ 32) : Spec S (bufferAllocate buf size) fun r =>
      (r.1 = size ∧ size ≤ buf.remaining ∧ r.2 = { buf with remaining := buf.remaining - size }) ∨
        (r.1 = 0 ∧ buf.remaining < size ∧ r.2 = buf) := by
  refine ⟨fun hS => ?_, fun r hr => bufferAllocate_cases hs hr⟩
  unfold bufferAllocate nvmevAssert
  rw [ensure_of _ (h hS)]
  exact ⟨_, rfl⟩

theorem convWrite_spec (B : Nat → PerfModel τ) {S : Prop} {ns : ConvNs τ} {req : RwRequest}
    {J : WriteLoop τ → Prop} (hfits : S → req.cmd.nrLbas * 512 ≤ ns.writeBuffer.size)
    (hloop : Accepts ns req → ∀ stime s, s.ftls = ns.ftls → s.ops = [] →
      Spec S (forRange (endLpn ns req + 1 - startLpn ns req) s fun s i =>
        convWriteLpn B ns.nrParts req.sqId stime s (startLpn ns req + i)) J) :
    Spec S (convWrite B ns req) (WriteOutcome ns req J) := by
  have hn := nrLbas_le req.cmd
  have hpos := nrLbas_pos req.cmd
  unfold convWrite
  dsimp only
  rw [lbaToByte_of_lt (show req.cmd.nrLbas < 2 ^ 55 by omega)]
  split
  · rename_i hrange
    exact .ret (.refused fun h => absurd h.range (Nat.not_lt_of_le hrange))
  rename_i hrange
  refine (bufferAllocate_spec hfits (by omega)).bind fun r hr => ?_
  obtain ⟨got, buf⟩ := r
  obtain ⟨rfl, hroom, rfl⟩ | ⟨rfl, hroom, rfl⟩ := hr
  · have hacc : Accepts ns req := ⟨Nat.lt_of_not_le hrange, hroom⟩
    dsimp only
    rw [if_neg (Nat.lt_irrefl _)]
    exact (hloop hacc _ _ rfl rfl).bind fun s hs => .ret (.done hacc s hs)
  · dsimp only
    rw [if_pos (by omega)]
    exact .ret (.refused fun h => absurd h.room (Nat.not_le_of_lt hroom))

/-- A command that is not a write keeps the partitions and the write buffer. -/
theorem convProcNvmeIoCmd_spec (B : Nat → PerfModel τ) {S : Prop} {ns : ConvNs τ} {req : RwRequest}
    {R : IoOutcome (ConvNs τ) → Prop} (hwrite : req.cmd.opcode = .write → Spec S (convWrite B ns req) R)
    (hother : ∀ o : IoOutcome (ConvNs τ), req.cmd.opcode ≠ .write → o.ops = [] →
      (∃ perf, o.ftl = { ns with perf }) → R o) : Spec S (convProcNvmeIoCmd B ns req) R := by
  unfold convProcNvmeIoCmd
  split
  · exact hwrite ‹_›
  · rename_i hop
    refine .ret (hother _ (by simp [hop]) ?_ ?_)
    · unfold convRead
      dsimp only
      split <;> rfl
    · unfold convRead
      dsimp only
      split
      · exact ⟨ns.perf, rfl⟩
      · exact ⟨_, rfl⟩
  · rename_i hop
    exact .ret (hother _ (by simp [hop]) rfl ⟨_, rfl⟩)
  · rename_i hop _ _
    exact .ret (hother _ hop rfl ⟨ns.perf, rfl⟩)

end Nvmev
