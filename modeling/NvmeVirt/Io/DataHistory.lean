import NvmeVirt.Io.DataPath

/-!
# The history of the bytes of the storage

What one more event of a request does to the record of a run. `Histories` says that for every byte of the
storage the log is a well-formed history of a register, which replays to what the storage holds now. It is
kept by the dispatch of a new request (`Histories.dispatched`), by the move of the next byte of one
(`Histories.moved`), by its completion after the last byte (`Histories.posted`) and by a store
(`Histories.stored`).
-/

namespace Nvmev

open CInt Bytes Function

namespace DataPath

variable {mapped : Nat → Nat} {cmd : RwCommand} {log : List Event} {id : Nat × Nat} {a k n : Nat}

/-! ## The bytes of a command -/

theorem covers_iff : Covers mapped cmd a ↔
    ioDir cmd.opcode ≠ .nowhere ∧ ∃ k < cmdIoSize cmd, a = byteAddr mapped cmd k := by
  have hle := cmdIoSize_le cmd
  unfold Covers byteAddr
  refine and_congr_right fun _ => ⟨?_, ?_⟩
  · rintro ⟨ha, hlt⟩
    exact ⟨_, hlt, (add_sub64 ha).symm⟩
  · rintro ⟨k, hk, rfl⟩
    refine ⟨Nat.mod_lt _ (by decide), ?_⟩
    rw [sub64_add (by omega)]
    exact hk

theorem byteAddr_inj {k' : Nat} (hk : k < cmdIoSize cmd) (hk' : k' < cmdIoSize cmd)
    (h : byteAddr mapped cmd k = byteAddr mapped cmd k') : k = k' := by
  have hle := cmdIoSize_le cmd
  unfold byteAddr at h
  have hsub : sub64 (u64 (mapped (dec32 cmd.nsid) + cmdIoOffset cmd + k))
      (mapped (dec32 cmd.nsid) + cmdIoOffset cmd) = k := sub64_add (by omega)
  rw [← hsub, h, sub64_add (by omega)]

/-! ## The record of a request -/

/-- Request `id` is dispatched with `cmd` and not completed. -/
structure Pending (log : List Event) (id : Nat × Nat) (cmd : RwCommand) : Prop where
  dispatched : .dispatched id cmd ∈ log
  notPosted : ∀ cmd', .posted id cmd' ∉ log

/-- Request `id` has moved the first `n` bytes of `cmd`, if `cmd` moves data. -/
def Progress (mapped : Nat → Nat) (log : List Event) (id : Nat × Nat) (cmd : RwCommand) (n : Nat) : Prop :=
  moves id log = if ioDir cmd.opcode = .nowhere then []
    else (List.range n).map fun k => (ioDir cmd.opcode, byteAddr mapped cmd k)

theorem moves_concat (log : List Event) (ev : Event) :
    moves id (log ++ [ev]) = moves id log ++ (move? id ev).toList := List.filterMap_append

theorem move?_of_ne {ev : Event} (h : ev.id? ≠ some id) : move? id ev = none := by
  cases ev with
  | dispatched id' cmd => rfl
  | posted id' cmd => rfl
  | stored n nsid addr byte => rfl
  | moved id' dir addr hostAddr byte => exact if_neg fun heq => h (congrArg some heq)

theorem mem_moves {dir : Prp.Dir} : (dir, a) ∈ moves id log ↔
    ∃ hostAddr byte, .moved id dir a hostAddr byte ∈ log := by
  unfold moves
  rw [List.mem_filterMap]
  constructor
  · rintro ⟨ev, hev, heq⟩
    cases ev with
    | dispatched id' cmd => cases heq
    | posted id' cmd => cases heq
    | stored n nsid addr byte => cases heq
    | moved id' dir' addr hostAddr byte =>
      dsimp only [move?] at heq
      split at heq
      · rename_i hid
        cases heq
        exact ⟨hostAddr, byte, hid ▸ hev⟩
      · cases heq
  · rintro ⟨hostAddr, byte, hev⟩
    exact ⟨_, hev, if_pos rfl⟩

theorem Pending.concat {ev : Event} (h : Pending log id cmd) (hev : ∀ cmd', ev ≠ .posted id cmd') :
    Pending (log ++ [ev]) id cmd := by
  refine ⟨List.mem_append_left _ h.dispatched, fun cmd' hmem => ?_⟩
  rw [List.mem_append, List.mem_singleton] at hmem
  obtain hmem | heq := hmem
  · exact h.notPosted cmd' hmem
  · exact hev cmd' heq.symm

theorem Pending.of_ne {ev : Event} (h : Pending log id cmd) (hne : ev.id? ≠ some id) :
    Pending (log ++ [ev]) id cmd := by
  refine h.concat fun cmd' heq => hne ?_
  rw [heq]
  rfl

/-- An event that moves nothing for the request. -/
theorem Progress.concat {ev : Event} (h : Progress mapped log id cmd n) (hev : move? id ev = none) :
    Progress mapped (log ++ [ev]) id cmd n := by
  unfold Progress
  rw [moves_concat, hev, Option.toList_none, List.append_nil]
  exact h

/-- The next byte. -/
theorem Progress.moved {hostAddr : Nat} {byte : UInt8} (h : Progress mapped log id cmd n)
    (hdir : ioDir cmd.opcode ≠ .nowhere) :
    Progress mapped (log ++ [.moved id (ioDir cmd.opcode) (byteAddr mapped cmd n) hostAddr byte]) id cmd
      (n + 1) := by
  unfold Progress at h ⊢
  rw [if_neg hdir] at h ⊢
  rw [moves_concat, h, List.range_succ, List.map_append, move?, if_pos rfl]
  rfl

/-- A new request has moved nothing. -/
theorem progress_new (hnew : ∀ ev ∈ log, ev.id? ≠ some id) : Progress mapped log id cmd 0 := by
  have hnil : moves id log = [] := by
    rw [List.eq_nil_iff_forall_not_mem]
    rintro ⟨dir, a⟩ hmem
    obtain ⟨hostAddr, byte, hev⟩ := mem_moves.mp hmem
    exact hnew _ hev rfl
  unfold Progress
  rw [hnil]
  split <;> rfl

/-- The bytes that a request moved. -/
theorem Progress.mem_iff (h : Progress mapped log id cmd n) {dir : Prp.Dir} :
    (dir, a) ∈ moves id log ↔
      ioDir cmd.opcode ≠ .nowhere ∧ dir = ioDir cmd.opcode ∧ ∃ k < n, a = byteAddr mapped cmd k := by
  rw [h]
  split
  · rename_i hdir
    simp [hdir]
  · rename_i hdir
    simp only [List.mem_map, List.mem_range, Prod.mk.injEq, ne_eq, hdir, not_false_eq_true, true_and]
    constructor
    · rintro ⟨k, hk, rfl, rfl⟩
      exact ⟨rfl, k, hk, rfl⟩
    · rintro ⟨rfl, k, hk, rfl⟩
      exact ⟨k, hk, rfl, rfl⟩

/-! ## The histories -/

theorem history_concat (log : List Event) (ev : Event) :
    history mapped a (log ++ [ev]) = history mapped a log ++ events mapped a ev := by
  unfold history
  rw [List.flatMap_append, List.flatMap_singleton]

/-- What stands in the history of a byte: what the events of the log are for it. -/
theorem events_mem {e : History.Event OpId (History.RegisterOp UInt8)} {ev : Event} :
    e ∈ events mapped a ev ↔
      (∃ id cmd, ev = .dispatched id cmd ∧ Covers mapped cmd a ∧ e = .invoke (.inl id)) ∨
      (∃ id dir hostAddr byte, ev = .moved id dir a hostAddr byte ∧
        e = .effect (.inl id) (if dir = .toHost then .read byte else .write byte)) ∨
      (∃ id cmd, ev = .posted id cmd ∧ Covers mapped cmd a ∧ e = .respond (.inl id)) ∨
      ∃ n nsid byte, ev = .stored n nsid a byte ∧
        (e = .invoke (.inr n) ∨ e = .effect (.inr n) (.write byte) ∨ e = .respond (.inr n)) := by
  cases ev with
  | dispatched id cmd => simp [events, and_comm, -Prod.exists]
  | moved id dir addr hostAddr byte => simp [events, and_comm, eq_comm, -Prod.exists]
  | posted id cmd => simp [events, and_comm, -Prod.exists]
  | stored n nsid addr byte => simp [events, and_comm, eq_comm, -Prod.exists]

theorem invoke_mem_events (h : Covers mapped cmd a) :
    .invoke (.inl id) ∈ events mapped a (.dispatched id cmd) := by
  simp [events, h]

theorem respond_mem_events (h : Covers mapped cmd a) :
    .respond (.inl id) ∈ events mapped a (.posted id cmd) := by
  simp [events, h]

theorem mem_history {e : History.Event OpId (History.RegisterOp UInt8)} :
    e ∈ history mapped a log ↔ ∃ ev ∈ log, e ∈ events mapped a ev := List.mem_flatMap

theorem invoke_mem : .invoke (.inl id) ∈ history mapped a log ↔
    ∃ cmd, .dispatched id cmd ∈ log ∧ Covers mapped cmd a := by
  simp [mem_history, events_mem, -Prod.exists]

theorem respond_mem : .respond (.inl id) ∈ history mapped a log ↔
    ∃ cmd, .posted id cmd ∈ log ∧ Covers mapped cmd a := by
  simp [mem_history, events_mem, -Prod.exists]

theorem effect_mem {op : History.RegisterOp UInt8} : .effect (.inl id) op ∈ history mapped a log ↔
    ∃ dir hostAddr byte, .moved id dir a hostAddr byte ∈ log ∧
      op = if dir = .toHost then .read byte else .write byte := by
  simp [mem_history, events_mem, -Prod.exists]

theorem invoke_store_mem : .invoke (.inr n) ∈ history mapped a log ↔
    ∃ nsid byte, .stored n nsid a byte ∈ log := by
  simp [mem_history, events_mem, -Prod.exists]

theorem effect_store_mem {op : History.RegisterOp UInt8} :
    .effect (.inr n) op ∈ history mapped a log ↔
      ∃ nsid byte, .stored n nsid a byte ∈ log ∧ op = .write byte := by
  simp [mem_history, events_mem, -Prod.exists]

/-- The log is a history of every byte of the storage, from `storage₀` to `storage`. -/
def Histories (mapped : Nat → Nat) (storage₀ : Mem) (log : List Event) (storage : Mem) : Prop :=
  ∀ a < 2 ^ 64, History.WellFormed (history mapped a log) ∧
    History.replay History.register (storage₀ a) (History.effects (history mapped a log)) =
      some (storage a)

variable {storage₀ storage : Mem}

/-- An event that moves no byte. -/
theorem Histories.concat {ev : Event} (h : Histories mapped storage₀ log storage)
    (hev : ∀ a, events mapped a ev = [] ∨ ∃ e, events mapped a ev = [e] ∧ e.effect? = none ∧
      History.Justified (history mapped a log) e) :
    Histories mapped storage₀ (log ++ [ev]) storage := by
  intro a ha
  obtain ⟨hwf, hrep⟩ := h a ha
  rw [history_concat]
  obtain hnil | ⟨e, hone, hnone, hj⟩ := hev a
  · rw [hnil, List.append_nil]
    exact ⟨hwf, hrep⟩
  · rw [hone]
    refine ⟨hwf.concat hj, ?_⟩
    unfold History.effects at hrep ⊢
    rw [List.filterMap_append, List.filterMap_cons_none hnone, List.filterMap_nil, List.append_nil]
    exact hrep

theorem Histories.dispatched (h : Histories mapped storage₀ log storage)
    (hnew : ∀ ev ∈ log, ev.id? ≠ some id) :
    Histories mapped storage₀ (log ++ [.dispatched id cmd]) storage := by
  refine h.concat fun a => ?_
  by_cases hc : Covers mapped cmd a
  · refine .inr ⟨_, if_pos hc, rfl, fun hmem => ?_⟩
    obtain ⟨cmd', hev, -⟩ := invoke_mem.mp hmem
    exact hnew _ hev rfl
  · exact .inl (if_neg hc)

/-- A completion, when all bytes are moved. -/
theorem Histories.posted (h : Histories mapped storage₀ log storage)
    (hp : Progress mapped log id cmd (cmdIoSize cmd)) :
    Histories mapped storage₀ (log ++ [.posted id cmd]) storage := by
  refine h.concat fun a => ?_
  by_cases hc : Covers mapped cmd a
  · obtain ⟨hdir, k, hk, rfl⟩ := covers_iff.mp hc
    obtain ⟨hostAddr, byte, hev⟩ := mem_moves.mp (hp.mem_iff.mpr ⟨hdir, rfl, k, hk, rfl⟩)
    exact .inr ⟨_, if_pos hc, rfl, _, effect_mem.mpr ⟨_, _, _, hev, rfl⟩⟩
  · exact .inl (if_neg hc)

/-- A store. -/
theorem Histories.stored (h : Histories mapped storage₀ log storage) {nsid addr : Nat}
    (hnew : ∀ nsid addr byte, .stored n nsid addr byte ∉ log) (byte : UInt8) :
    Histories mapped storage₀ (log ++ [.stored n nsid addr byte]) (update storage addr byte) := by
  intro a ha
  obtain ⟨hwf, hrep⟩ := h a ha
  rw [history_concat, events]
  by_cases hne : addr = a
  · subst hne
    rw [if_pos rfl, update_self]
    refine ⟨hwf.instant fun hmem => ?_, ?_⟩
    · obtain ⟨nsid', byte', hev⟩ := invoke_store_mem.mp hmem
      exact hnew _ _ _ hev
    · unfold History.effects at hrep ⊢
      rw [List.filterMap_append, History.replay_append, hrep]
      rfl
  · rw [if_neg hne, List.append_nil, update_of_ne (Ne.symm hne)]
    exact ⟨hwf, hrep⟩

/-- The next byte of a request. -/
theorem Histories.moved {ms : Prp.Memories} (h : Histories mapped storage₀ log ms.storage)
    (hpend : Pending log id cmd) (hp : Progress mapped log id cmd n) (hn : n < cmdIoSize cmd)
    (hdir : ioDir cmd.opcode ≠ .nowhere) (hostAddr : Nat) :
    Histories mapped storage₀
      (log ++ [.moved id (ioDir cmd.opcode) (byteAddr mapped cmd n) hostAddr
        (moveByte (ioDir cmd.opcode) (byteAddr mapped cmd n) hostAddr ms).1])
      (moveByte (ioDir cmd.opcode) (byteAddr mapped cmd n) hostAddr ms).2.storage := by
  intro a ha
  obtain ⟨hwf, hrep⟩ := h a ha
  rw [history_concat, events]
  by_cases hne : byteAddr mapped cmd n = a
  · -- the byte at `a` is moved now, for the first time by this request
    subst hne
    rw [if_pos rfl]
    refine ⟨hwf.concat ⟨?_, ?_, ?_⟩, ?_⟩
    · exact invoke_mem.mpr ⟨cmd, hpend.dispatched, covers_iff.mpr ⟨hdir, n, hn, rfl⟩⟩
    · intro hmem
      obtain ⟨cmd', hev, -⟩ := respond_mem.mp hmem
      exact hpend.notPosted cmd' hev
    · intro op hmem
      obtain ⟨dir, hostAddr', byte, hev, -⟩ := effect_mem.mp hmem
      obtain ⟨-, -, k, hk, heq⟩ := hp.mem_iff.mp (mem_moves.mpr ⟨_, _, hev⟩)
      have := byteAddr_inj hn (by omega) heq
      omega
    · unfold History.effects at hrep ⊢
      rw [List.filterMap_append, History.replay_append, hrep]
      cases hd : ioDir cmd.opcode with
      | nowhere => exact absurd hd hdir
      | toStorage => simp [moveByte, History.Event.effect?, History.replay, History.register]
      | toHost => simp [moveByte, History.Event.effect?, History.replay, History.register]
  · rw [if_neg hne, List.append_nil]
    refine ⟨hwf, hrep.trans ?_⟩
    cases hd : ioDir cmd.opcode with
    | nowhere => rfl
    | toStorage =>
      dsimp only [moveByte]
      rw [update_of_ne (Ne.symm hne)]
    | toHost => rfl

/-! ## The log -/

/-- What stands in the log beside an event. -/
def Justified (mapped : Nat → Nat) (log : List Event) : Event → Prop
  | .dispatched _ _ | .stored _ _ _ _ => True
  | .moved id dir addr _ _ =>
    ∃ cmd, .dispatched id cmd ∈ log ∧ dir = ioDir cmd.opcode ∧ Covers mapped cmd addr
  | .posted id cmd => .dispatched id cmd ∈ log

/-- A log of requests whose bytes and completions belong to their commands, and which is a history of every
byte of the storage. -/
structure LogOk (mapped : Nat → Nat) (storage₀ : Mem) (log : List Event) (storage : Mem) : Prop where
  histories : Histories mapped storage₀ log storage
  justified : ∀ ev ∈ log, Justified mapped log ev
  command : ∀ id cmd cmd', .dispatched id cmd ∈ log → .dispatched id cmd' ∈ log → cmd = cmd'
  stored : ∀ n nsid addr byte, .stored n nsid addr byte ∈ log → n < log.length

theorem Justified.concat {ev ev' : Event} (h : Justified mapped log ev) :
    Justified mapped (log ++ [ev']) ev := by
  cases ev with
  | dispatched id cmd => trivial
  | stored n nsid addr byte => trivial
  | moved id dir addr hostAddr byte =>
    obtain ⟨cmd, hmem, hrest⟩ := h
    exact ⟨cmd, List.mem_append_left _ hmem, hrest⟩
  | posted id cmd => exact List.mem_append_left _ h

theorem justified_concat {ev : Event} (h : ∀ ev ∈ log, Justified mapped log ev)
    (hev : Justified mapped (log ++ [ev]) ev) :
    ∀ ev' ∈ log ++ [ev], Justified mapped (log ++ [ev]) ev' := by
  intro ev' hmem
  rw [List.mem_append, List.mem_singleton] at hmem
  obtain hmem | rfl := hmem
  · exact (h ev' hmem).concat
  · exact hev

/-- A store is numbered by the events before it. -/
theorem stored_concat {ev : Event}
    (h : ∀ n nsid addr byte, .stored n nsid addr byte ∈ log → n < log.length)
    (hev : ∀ n nsid addr byte, ev = .stored n nsid addr byte → n = log.length) (n nsid addr : Nat)
    (byte : UInt8) (hmem : .stored n nsid addr byte ∈ log ++ [ev]) : n < (log ++ [ev]).length := by
  rw [List.length_append]
  rw [List.mem_append, List.mem_singleton] at hmem
  obtain hmem | heq := hmem
  · exact Nat.lt_add_right _ (h n nsid addr byte hmem)
  · rw [hev n nsid addr byte heq.symm]
    exact Nat.lt_succ_self _

theorem LogOk.dispatched (h : LogOk mapped storage₀ log storage)
    (hnew : ∀ ev ∈ log, ev.id? ≠ some id) :
    LogOk mapped storage₀ (log ++ [.dispatched id cmd]) storage where
  histories := h.histories.dispatched hnew
  justified := justified_concat h.justified trivial
  command id' c c' hc hc' := by
    rw [List.mem_append, List.mem_singleton] at hc hc'
    obtain hc | hc := hc <;> obtain hc' | hc' := hc'
    · exact h.command id' c c' hc hc'
    · cases hc'
      exact absurd rfl (hnew _ hc)
    · cases hc
      exact absurd rfl (hnew _ hc')
    · cases hc
      cases hc'
      rfl
  stored := stored_concat h.stored nofun

theorem LogOk.stored_next (h : LogOk mapped storage₀ log storage) (nsid addr : Nat) (byte : UInt8) :
    LogOk mapped storage₀ (log ++ [.stored log.length nsid addr byte]) (update storage addr byte) where
  histories := h.histories.stored (fun nsid addr byte hmem =>
    Nat.lt_irrefl _ (h.stored _ nsid addr byte hmem)) byte
  justified := justified_concat h.justified trivial
  command id c c' hc hc' := h.command id c c' (by simpa using hc) (by simpa using hc')
  stored := stored_concat h.stored fun n nsid addr byte heq => by
    cases heq
    rfl

theorem LogOk.posted (h : LogOk mapped storage₀ log storage) (hpend : Pending log id cmd)
    (hp : Progress mapped log id cmd (cmdIoSize cmd)) :
    LogOk mapped storage₀ (log ++ [.posted id cmd]) storage where
  histories := h.histories.posted hp
  justified := justified_concat h.justified (List.mem_append_left _ hpend.dispatched)
  command id' c c' hc hc' := h.command id' c c' (by simpa using hc) (by simpa using hc')
  stored := stored_concat h.stored nofun

theorem LogOk.moved {ms : Prp.Memories} (h : LogOk mapped storage₀ log ms.storage)
    (hpend : Pending log id cmd) (hp : Progress mapped log id cmd n) (hn : n < cmdIoSize cmd)
    (hdir : ioDir cmd.opcode ≠ .nowhere) (hostAddr : Nat) :
    LogOk mapped storage₀
      (log ++ [.moved id (ioDir cmd.opcode) (byteAddr mapped cmd n) hostAddr
        (moveByte (ioDir cmd.opcode) (byteAddr mapped cmd n) hostAddr ms).1])
      (moveByte (ioDir cmd.opcode) (byteAddr mapped cmd n) hostAddr ms).2.storage where
  histories := h.histories.moved hpend hp hn hdir hostAddr
  justified := justified_concat h.justified
    ⟨cmd, List.mem_append_left _ hpend.dispatched, rfl, covers_iff.mpr ⟨hdir, n, hn, rfl⟩⟩
  command id' c c' hc hc' := h.command id' c c' (by simpa using hc) (by simpa using hc')
  stored := stored_concat h.stored nofun

end DataPath

end Nvmev
