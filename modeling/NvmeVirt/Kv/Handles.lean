import NvmeVirt.Kv.Iterators
import NvmeVirt.Lib.Outcome

/-!
# The handles of the iterators

`kv_iter_open` looks for a null pointer in `iter_handle[1]`, …, `iter_handle[16]`. With none it
returns 1 and leaves the status at success, so the host takes handle 1 for its own, which another
iterator has. This happens when all sixteen handles are in use, and one open earlier where
`iter_handle[16]`, which `kv_init_namespace` does not set, is no null pointer. In every run the
opens give out fresh handles exactly when each one finds a null pointer
(`handles_not_shared_iff`).
-/

namespace Nvmev

open Function Outcome

/-- The device, and the handles of the open iterators as the host knows them. -/
structure IterHost where
  dev : KvIterDev
  held : List Nat

/-- The status of the completion: the handler found the status of a success. -/
def KvReply.success (r : KvReply) : Bool := r.status.getD Sc.success == Sc.success

/-- The command opens an iterator. -/
def KvIterCommand.isOpen (cmd : KvIterCommand) : Bool := cmd.opcode == .kvIterReq && cmd.optionOpen

/-- The command closes an iterator. -/
def KvIterCommand.isClose (cmd : KvIterCommand) : Bool :=
  cmd.opcode == .kvIterReq && !cmd.optionOpen && cmd.optionClose

namespace IterHost

/-- The host sends a command. With an open that succeeds it gets a handle, which it gives back with a
close. -/
def step (s : IterHost) (cmd : KvIterCommand) : Except Bug IterHost := do
  let (reply, dev) ← doPerformKvIterIo s.dev cmd
  let held :=
    if cmd.isOpen ∧ reply.success then reply.result :: s.held
    else if cmd.isClose then s.held.erase cmd.handle
    else s.held
  pure { dev, held }

/-- After `kv_init_namespace`. -/
def init (storageSize : Nat) (ms : Prp.Memories) (wild : Bool) : IterHost :=
  { dev := kvIterInit storageSize ms wild, held := [] }

/-- An open that succeeds returns a handle that no other iterator has, and its slot gets the context
of this open; with all sixteen handles in use it fails. -/
def OpenFresh (s : IterHost) (cmd : KvIterCommand) : Prop :=
  cmd.isOpen → Total (doPerformKvIterIo s.dev cmd) fun (reply, dev) =>
    (reply.success → 1 ≤ reply.result ∧ reply.result ≤ 16 ∧ reply.result ∉ s.held ∧
      s.dev.iterHandle reply.result = .null ∧
      dev.iterHandle reply.result = .context (.opened cmd)) ∧
    ((∀ h, 1 ≤ h → h ≤ 16 → h ∈ s.held) → ¬ reply.success)

/-- An open finds a null pointer. -/
def HasHandle (s : IterHost) (cmd : KvIterCommand) : Prop :=
  cmd.isOpen → ∃ h, 1 ≤ h ∧ h ≤ 16 ∧ s.dev.iterHandle h = .null

/-- The open iterators have different handles, and their contexts are there. -/
structure Distinct (s : IterHost) : Prop where
  nodup : s.held.Nodup
  context : ∀ h ∈ s.held, ∃ c, s.dev.iterHandle h = .context c

end IterHost

section

variable {d d' : KvIterDev} {cmd : KvIterCommand} {reply : KvReply} {s s' : IterHost}

theorem isNull_iff {p : IterHandle} : p.isNull = true ↔ p = .null := by
  cases p <;> simp [IterHandle.isNull]

/-- An open, with a free handle and without. -/
theorem kvIterOpen_cases (d : KvIterDev) (cmd : KvIterCommand) :
    (∃ h, 1 ≤ h ∧ h ≤ 16 ∧ d.iterHandle h = .null ∧
      kvIterOpen d cmd = ({ status := some 0, result := h },
        { d with iterHandle := update d.iterHandle h (.context (.opened cmd)) })) ∨
    ((∀ h, 1 ≤ h → h ≤ 16 → d.iterHandle h ≠ .null) ∧ kvIterOpen d cmd = ({ result := 1 }, d)) := by
  unfold kvIterOpen
  cases hf : (List.range' 1 16).find? fun iter => (d.iterHandle iter).isNull with
  | none =>
    refine .inr ⟨fun h h1 h16 hnull => ?_, rfl⟩
    have hno := List.find?_eq_none.mp hf h (List.mem_range'_1.mpr ⟨h1, by omega⟩)
    exact hno (isNull_iff.mpr hnull)
  | some h =>
    have hmem := List.mem_range'_1.mp (List.mem_of_find?_eq_some hf)
    have hnull : (d.iterHandle h).isNull = true := by simpa using List.find?_some hf
    exact .inl ⟨h, hmem.1, by omega, isNull_iff.mp hnull, rfl⟩

theorem doPerformKvIterIo_open (hop : cmd.isOpen) : doPerformKvIterIo d cmd = .ok (kvIterOpen d cmd) := by
  obtain ⟨hreq, ho⟩ : cmd.opcode = .kvIterReq ∧ cmd.optionOpen = true := by
    simpa [KvIterCommand.isOpen] using hop
  unfold doPerformKvIterIo
  rw [hreq]
  simp [ho]

theorem doPerformKvIterIo_close (hop : cmd.isClose) : doPerformKvIterIo d cmd = kvIterClose d cmd := by
  obtain ⟨⟨hreq, ho⟩, hc⟩ :
      (cmd.opcode = .kvIterReq ∧ cmd.optionOpen = false) ∧ cmd.optionClose = true := by
    simpa [KvIterCommand.isClose] using hop
  unfold doPerformKvIterIo
  rw [hreq]
  simp [ho, hc]

/-- Of the slots a close changes the one of the handle at most. -/
theorem kvIterClose_frame (h : kvIterClose d cmd = .ok (reply, d')) {i : Nat} (hi : i ≠ cmd.handle) :
    d'.iterHandle i = d.iterHandle i := by
  unfold kvIterClose at h
  simp only [] at h
  split at h
  · cases h
  split at h
  · cases h
    rfl
  · cases h
  · cases h
    exact update_of_ne hi _ _

/-- A read leaves the contexts in their slots. -/
theorem kvIterRead_context (h : kvIterRead d cmd = .ok (reply, d')) {i : Nat} {c : KvIterContext}
    (hc : d.iterHandle i = .context c) : ∃ c', d'.iterHandle i = .context c' := by
  unfold kvIterRead at h
  simp only [] at h
  split at h
  · cases h
  split at h
  · cases h
    exact ⟨c, hc⟩
  · cases h
  · cases h
    by_cases hi : i = cmd.handle
    · subst hi
      exact ⟨_, update_self _ _ _⟩
    · exact ⟨c, by simpa [hi] using hc⟩

/-- A command that neither opens nor closes an iterator leaves the contexts in their slots. -/
theorem doPerformKvIterIo_context (ho : ¬ cmd.isOpen) (hcl : ¬ cmd.isClose)
    (h : doPerformKvIterIo d cmd = .ok (reply, d')) {i : Nat} {c : KvIterContext}
    (hc : d.iterHandle i = .context c) : ∃ c', d'.iterHandle i = .context c' := by
  unfold doPerformKvIterIo at h
  split at h
  · rename_i hreq
    have hopen : cmd.optionOpen = false := by simpa [KvIterCommand.isOpen, hreq] using ho
    have hclose : cmd.optionClose = false := by simpa [KvIterCommand.isClose, hreq, hopen] using hcl
    simp only [hopen, hclose, Bool.false_eq_true, ↓reduceIte] at h
    cases h
    exact ⟨c, hc⟩
  · exact kvIterRead_context h hc
  · cases h
    exact ⟨c, hc⟩

namespace IterHost

/-- No open iterator has the handle of a null pointer. -/
theorem Distinct.not_held (h : Distinct s) {i : Nat} (hnull : s.dev.iterHandle i = .null) :
    i ∉ s.held := by
  intro hi
  obtain ⟨c, hc⟩ := h.context i hi
  rw [hnull] at hc
  cases hc

/-- One open gives out a fresh handle exactly when it finds a null pointer. -/
theorem openFresh_iff (h : Distinct s) (cmd : KvIterCommand) : OpenFresh s cmd ↔ HasHandle s cmd := by
  refine forall_congr' fun hop => ?_
  rw [doPerformKvIterIo_open hop]
  rcases kvIterOpen_cases s.dev cmd with ⟨i, h1, h16, hnull, hopen⟩ | ⟨hno, hopen⟩
  · rw [hopen]
    refine ⟨fun _ => ⟨i, h1, h16, hnull⟩, fun _ => .ret ⟨fun _ => ?_, fun hall => ?_⟩⟩
    · exact ⟨h1, h16, h.not_held hnull, hnull, update_self _ _ _⟩
    · exact absurd (hall i h1 h16) (h.not_held hnull)
  · rw [hopen]
    constructor
    · rintro ⟨r, hr, hfresh, -⟩
      cases hr
      obtain ⟨-, -, -, hnull, -⟩ := hfresh rfl
      exact absurd hnull (hno 1 (by decide) (by decide))
    · rintro ⟨i, h1, h16, hnull⟩
      exact absurd hnull (hno i h1 h16)

/-- A context in the slot of a null pointer, and its handle for the host. -/
theorem Distinct.open (h : Distinct s) {i : Nat} (hnull : s.dev.iterHandle i = .null)
    (c : KvIterContext) :
    Distinct { dev := { s.dev with iterHandle := update s.dev.iterHandle i (.context c) }
               held := i :: s.held } := by
  refine ⟨List.nodup_cons.mpr ⟨h.not_held hnull, h.nodup⟩, fun j hj => ?_⟩
  rcases List.mem_cons.mp hj with rfl | hj
  · exact ⟨c, update_self _ _ _⟩
  · obtain ⟨c', hc⟩ := h.context j hj
    have hji : j ≠ i := fun hji => h.not_held hnull (hji ▸ hj)
    exact ⟨c', by simpa [hji] using hc⟩

/-- The host gives a handle back, and the other slots stay. -/
theorem Distinct.close (h : Distinct s) {i : Nat}
    (hframe : ∀ j ≠ i, d'.iterHandle j = s.dev.iterHandle j) :
    Distinct { dev := d', held := s.held.erase i } := by
  refine ⟨h.nodup.erase i, fun j hj => ?_⟩
  obtain ⟨hji, hj⟩ := (List.Nodup.mem_erase_iff h.nodup).mp hj
  obtain ⟨c, hc⟩ := h.context j hj
  exact ⟨c, (hframe j hji).trans hc⟩

/-- A command keeps the handles apart, if an open finds a null pointer. -/
theorem Distinct.step (h : Distinct s) (hfree : HasHandle s cmd) (hs : s.step cmd = .ok s') :
    Distinct s' := by
  obtain ⟨⟨reply, d'⟩, hd, hs⟩ := bind_ok.mp hs
  cases hs
  by_cases hop : cmd.isOpen
  · rw [doPerformKvIterIo_open hop] at hd
    rcases kvIterOpen_cases s.dev cmd with ⟨i, -, -, hnull, hopen⟩ | ⟨hno, -⟩
    · rw [hopen] at hd
      cases hd
      have hheld : cmd.isOpen = true ∧
          KvReply.success { status := some 0, result := i } = true := ⟨hop, rfl⟩
      simpa only [hheld, and_self, ↓reduceIte] using h.open hnull (.opened cmd)
    · obtain ⟨i, h1, h16, hnull⟩ := hfree hop
      exact absurd hnull (hno i h1 h16)
  by_cases hcl : cmd.isClose
  · rw [doPerformKvIterIo_close hcl] at hd
    simpa only [hop, hcl, Bool.false_eq_true, false_and, ↓reduceIte] using
      h.close fun j hj => kvIterClose_frame hd hj
  · simp only [hop, hcl, Bool.false_eq_true, false_and, ↓reduceIte]
    refine ⟨h.nodup, fun j hj => ?_⟩
    obtain ⟨c, hc⟩ := h.context j hj
    exact doPerformKvIterIo_context hop hcl hd hc

end IterHost

/-- In every run of commands on iterators, all the opens give out fresh handles exactly when each of
them finds a null pointer among `iter_handle[1]`, …, `iter_handle[16]`. -/
theorem handles_not_shared_iff (storageSize : Nat) (ms : Prp.Memories) (wild : Bool)
    (cmds : List KvIterCommand) :
    Always IterHost.step IterHost.OpenFresh (.init storageSize ms wild) cmds ↔
      Always IterHost.step IterHost.HasHandle (.init storageSize ms wild) cmds := by
  have hinit : (IterHost.init storageSize ms wild).Distinct :=
    ⟨List.nodup_nil, fun h hh => by cases hh⟩
  exact Always.iff hinit (fun s cmd h => IterHost.openFresh_iff h cmd)
    fun s cmd s' h hfree hs => h.step hfree hs

end

/-- The command that opens an iterator over all the keys. -/
def openAll : KvIterCommand := { opcode := .kvIterReq, option := 1 }

/-- The seventeenth open succeeds and returns handle 1, which the first one has. -/
theorem seventeenth_open_shares :
    ¬ Always IterHost.step IterHost.OpenFresh (.init (2 ^ 30) ⟨fun _ => 0, fun _ => 0⟩ false)
      (List.replicate 16 openAll ++ [openAll]) := by
  obtain ⟨s, hrun, hheld, hopen⟩ :
      Total ((List.replicate 16 openAll).foldlM IterHost.step
        (.init (2 ^ 30) ⟨fun _ => 0, fun _ => 0⟩ false)) fun s =>
          1 ∈ s.held ∧ (kvIterOpen s.dev openAll).1 = { result := 1 } := by
    decide +kernel
  intro hall
  obtain ⟨r, hr, hfresh, -⟩ := hall.after hrun rfl
  rw [doPerformKvIterIo_open rfl, Except.ok.injEq] at hr
  rw [← hr, hopen] at hfresh
  obtain ⟨-, -, hnot, -⟩ := hfresh rfl
  exact hnot hheld

end Nvmev
