import NvmeVirt.Io.Prp
import NvmeVirt.Io.WorkQueue
import NvmeVirt.Zns.StateMachine

/-!
# Rejected writes and the medium

The dispatcher decides whether a zoned write is rejected; the worker copies the data later. The
decision is in the status of the work item, and the copy does not read it. So a rejected write
reaches the medium like any other: `rejected_write_medium` says that the namespace is unchanged
exactly when the data is already there (`Zns.DataInPlace`).
-/

namespace Nvmev

open CInt Function Outcome Bytes

namespace Zns

variable {τ : Type} {z z' : ZnsFtl τ} {zid : Nat}

/-- The address that a write or zone append gets: the write pointer for an append to a plain
zone. -/
def targetSlba (z : ZnsFtl τ) (cmd : RwCommand) : Nat :=
  if (z.zoneDescs (lpnToZone z (lbaToLpn z cmd.slba))).zrwav = false ∧ cmd.opcode = .zoneAppend then
    (z.zoneDescs (lbaToZone z cmd.slba)).wp
  else cmd.slba

/-- What the worker does to the memories at an entry, for the submission-queue entry `cmd`. -/
def applyEffect {β : Type} (pfnValid : Nat → Bool) (cmd : RwCommand) (ms : Prp.Memories) :
    Effect β → Prp.Memories
  | .copy none _ => doPerformIo pfnValid cmd ms
  | _ => ms

/-- The host's data for `cmd` is what the medium holds at the address that `cmd` gets, as far as this is in
the `size` bytes of the namespace. -/
def DataInPlace (z : ZnsFtl τ) (pfnValid : Nat → Bool) (size : Nat) (cmd : RwCommand) (host : Mem) : Prop :=
  ∀ k < cmdIoSize cmd, u64 (lbaToByte (targetSlba z cmd) + k) < size →
    host (cmdDataAddr pfnValid cmd host k) = z.storage (u64 (lbaToByte (targetSlba z cmd) + k))

/-! ## The handler leaves the storage alone -/

theorem acquire_storage {type : ZoneResource} {b : Bool} (h : acquireZoneResource z type = (b, z')) :
    z'.storage = z.storage := by
  unfold acquireZoneResource at h
  split at h <;> cases h <;> rfl

@[simp] theorem setBuffer_storage (b : Buffer) (ref : BufferRef) :
    (z.setBuffer b ref).storage = z.storage := by
  cases ref <;> rfl

@[simp] theorem changeZoneState_storage (state : ZoneState) :
    (changeZoneState z zid state).storage = z.storage := rfl

@[simp] theorem increaseWritePtr_storage (n : Nat) :
    (increaseWritePtr z zid n).storage = z.storage := by
  unfold increaseWritePtr; simp only []; split <;> rfl

theorem openImplicitly_storage : (openImplicitly z zid).2.storage = z.storage := by
  unfold openImplicitly
  split <;> rename_i he <;> simpa using acquire_storage he

theorem writeChecks_storage (z : ZnsFtl τ) (zid slba nrLba : Nat) :
    (writeChecks z zid slba nrLba).2.storage = z.storage := by
  rcases writeChecks_cases z zid slba nrLba with h | h | h
  · rw [h]
  · rw [h, openImplicitly_storage]
  · rw [h, openImplicitly_storage]
    exact acquire_storage rfl

theorem zrwaBufferAllocate_storage (size : Nat) :
    Partial (zrwaBufferAllocate z zid size) fun r => r.2.storage = z.storage := by
  refine zrwaBufferAllocate_eq.mono fun r hr => ?_
  obtain ⟨buf, -, hr⟩ := hr
  rw [hr, setBuffer_storage]

theorem zrwaChecks_storage (slba nrLba : Nat) :
    Partial (zrwaChecks z zid slba nrLba) fun r => r.2.storage = z.storage := by
  have hopen : Partial (openZrwa z zid) fun r => r.2.storage = z.storage := by
    unfold openZrwa
    split <;> rename_i he <;> have hs := acquire_storage he
    · exact .ret hs
    · refine Partial.bind (zrwaBufferAllocate_storage _) fun r hr => ?_
      exact Partial.bind .ensure fun _ _ => .ret (hr.trans hs)
  unfold zrwaChecks
  simp only []
  split
  · exact .ret rfl
  split
  · exact .ret rfl
  split
  · exact .ret rfl
  split <;> first | exact hopen | exact .ret rfl

theorem flushImplicit_storage (flush : Nat) :
    Partial (flushImplicit z zid flush) fun r => r.2.storage = z.storage := by
  unfold flushImplicit
  split
  · refine Partial.bind (zrwaBufferAllocate_storage _) fun r hr => .ret ?_
    split
    · exact hr
    · exact (increaseWritePtr_storage _).trans hr
  · exact .ret rfl

/-- The address and the storage after a write handler. -/
theorem znsWrite_cmd (B : PerfModel τ) (req : RwRequest) : Partial (znsWrite B z req) fun o =>
    o.cmd = { req.cmd with slba := targetSlba z req.cmd } ∧ o.ftl.storage = z.storage := by
  unfold znsWrite
  split
  · rename_i hzr
    have hslba : targetSlba z req.cmd = if req.cmd.opcode = .zoneAppend then
        (z.zoneDescs (lbaToZone z req.cmd.slba)).wp else req.cmd.slba := by
      simp [targetSlba, hzr]
    rw [hslba]
    unfold znsWritePlain
    simp only []
    refine Partial.bind (Q := fun _ => True) (fun _ _ => trivial) fun r _ => ?_
    split
    · exact .ret ⟨rfl, setBuffer_storage _ _⟩
    generalize (if req.cmd.opcode = .zoneAppend then (z.zoneDescs (lbaToZone z req.cmd.slba)).wp
      else req.cmd.slba) = slba
    have hs := writeChecks_storage (z.setBuffer r.2 (zoneBufferRef z (lbaToZone z req.cmd.slba)))
      (lbaToZone z req.cmd.slba) slba req.cmd.nrLbas
    rw [setBuffer_storage] at hs
    split <;> rename_i heq <;> rw [heq] at hs
    · exact .ret ⟨rfl, hs⟩
    · exact .ret ⟨rfl, (increaseWritePtr_storage _).trans hs⟩
  · rename_i hzr
    have hslba : targetSlba z req.cmd = req.cmd.slba := by simp [targetSlba, hzr]
    rw [hslba]
    unfold znsWriteZrwa
    simp only []
    refine Partial.bind (zrwaChecks_storage _ _) fun r hr => ?_
    split
    · exact .ret ⟨rfl, hr⟩
    refine Partial.bind (Q := fun _ => True) (fun _ _ => trivial) fun flush _ => ?_
    refine Partial.bind (flushImplicit_storage _) fun r' hr' => ?_
    obtain ⟨refused, z₂⟩ := r'
    simp only []
    split
    · exact .ret ⟨rfl, hr'.trans hr⟩
    · exact .ret ⟨rfl, hr'.trans hr⟩

/-- The effects of the worker on the memories, at the entry of a new request. -/
theorem applyEffect_request {β : Type} (pfnValid : Nat → Bool) (cmd : RwCommand)
    (ms : Prp.Memories) {wk : IoWorker β} {e now : Nat} (hcomp : (wk.workQueue e).isCompleted = false)
    (hcop : (wk.workQueue e).isCopied = false) (hint : (wk.workQueue e).isInternal = false) :
    (visitEntry wk e now none).2.2.foldl (applyEffect pfnValid cmd) ms =
      doPerformIo pfnValid cmd ms := by
  unfold visitEntry copyWork completeWork
  simp only [hcomp, hcop, hint, Bool.false_eq_true, ↓reduceIte]
  split <;> rfl

/-- A `ZNS_PROTOTYPE` of four empty zones, with zeroes on the medium. -/
def blank : ZnsFtl Unit := znsInitFtl .znsPrototype .znsPrototype () fun _ => 0

/-- A write of one block, which is less than the write unit. -/
def shortWrite : RwRequest := { cmd := { opcode := .write, slba := 0, length := 0 } }

/-- The worker with the request of `o` in entry 0. -/
def workerWith (o : IoOutcome (ZnsFtl Unit)) : IoWorker Unit :=
  let wk : IoWorker Unit := ioWorkerInit
  wk.setWork 0 (requestWork (wk.workQueue 0) 1 1 0 0 0 0 o.ret)

end Zns

/-- A write or zone append, whatever status the handler gives it: after the worker has processed its
work item, the bytes of the namespace are what they were before the command exactly when the data was in
place. -/
theorem rejected_write_medium {τ β : Type} (B : PerfModel τ) {z : ZnsFtl τ} {req : RwRequest}
    {o : IoOutcome (ZnsFtl τ)} (hop : req.cmd.opcode = .write ∨ req.cmd.opcode = .zoneAppend)
    (h : znsWrite B z req = .ok o) (size : Nat) (pfnValid : Nat → Bool) (host : Mem) (wk : IoWorker β)
    (e now : Nat) (old : IoWork β) (cqid sqEntry nsecsEnqueue : Nat)
    (hw : wk.workQueue e = requestWork old req.sqId cqid sqEntry req.cmd.commandId req.nsecsStart
      nsecsEnqueue o.ret) :
    (∀ a < size, ((visitEntry wk e now none).2.2.foldl (Zns.applyEffect pfnValid o.cmd)
        { host, storage := o.ftl.storage }).storage a = z.storage a) ↔
      Zns.DataInPlace z pfnValid size req.cmd host := by
  obtain ⟨hcmd, hs⟩ := Zns.znsWrite_cmd B req o h
  have hle := cmdIoSize_le o.cmd
  rw [Zns.applyEffect_request _ _ _ (by rw [hw]; rfl) (by rw [hw]; rfl) (by rw [hw]; rfl),
    doPerformIo_write (by rw [hcmd]; exact hop), hs, copyIn_eq_iff (by omega), hcmd]
  rfl

/-- A write of one block of 0xFF to a blank medium is rejected as an invalid write, and the medium
has the block. -/
theorem rejected_write_reaches_medium :
    ∃ o, znsWrite .instant Zns.blank Zns.shortWrite = .ok o ∧ o.accepted = true ∧
      o.ret.status = Sc.znsInvalidWrite ∧
      ((visitEntry (Zns.workerWith o) 0 0 none).2.2.foldl
        (Zns.applyEffect (fun _ => true) o.cmd)
        { host := fun _ => 0xff, storage := o.ftl.storage }).storage ≠ Zns.blank.storage := by
  have h : (do
      let o ← znsWrite .instant Zns.blank Zns.shortWrite
      pure (o.accepted, o.ret.status,
        ((visitEntry (Zns.workerWith o) 0 0 none).2.2.foldl (Zns.applyEffect (fun _ => true) o.cmd)
          { host := fun _ => 0xff, storage := o.ftl.storage }).storage 511)) =
      .ok (true, Sc.znsInvalidWrite, 0xff) := by decide +kernel
  obtain ⟨o, ho, h⟩ := bind_ok.mp h
  simp only [pure, Except.pure, Except.ok.injEq, Prod.mk.injEq] at h
  refine ⟨o, ho, h.1, h.2.1, fun heq => ?_⟩
  have := h.2.2
  rw [heq] at this
  cases this

/-- `rejected_write_medium` on a rejected write of zeroes to a blank medium. -/
theorem rejected_write_medium_blank :
    ∃ o, znsWrite .instant Zns.blank Zns.shortWrite = .ok o ∧ o.ret.status = Sc.znsInvalidWrite ∧
      ∀ a < Zns.blank.zp.nrZones * Zns.blank.zp.zoneSize,
        ((visitEntry (Zns.workerWith o) 0 0 none).2.2.foldl (Zns.applyEffect (fun _ => true) o.cmd)
          { host := fun _ => 0, storage := o.ftl.storage }).storage a = Zns.blank.storage a := by
  have h : (do
      let o ← znsWrite .instant Zns.blank Zns.shortWrite
      pure (o.accepted, o.ret.status)) = .ok (true, Sc.znsInvalidWrite) := by decide +kernel
  obtain ⟨o, ho, h⟩ := bind_ok.mp h
  simp only [pure, Except.pure, Except.ok.injEq, Prod.mk.injEq] at h
  refine ⟨o, ho, h.2, ?_⟩
  refine (rejected_write_medium .instant (.inl rfl) ho _ (fun _ => true) (fun _ => 0)
    (Zns.workerWith o) 0 0 (ioWorkerInit.workQueue 0) 1 0 0 ?_).mpr fun k _ _ => rfl
  simp [Zns.workerWith, IoWorker.setWork, Zns.shortWrite]

end Nvmev
