import NvmeVirt.Io.Alone
import NvmeVirt.Io.DataCases

/-!
# From the memory of the host and back to it

Which bytes of the host a request moves, and in the end what a read brings back of a write. The walk of the
worker along the PRPs takes as many steps as the data has bytes, and all others go on meanwhile: the host and
the reads of other workers change the memory that the PRP lists and the data are in.

* `Walk`: the worker is on its way along the PRPs as they are in `held`.
* `Carried`: byte `k` of a request in the storage and byte `k` of its buffer in `held` are moved together, if
  the entries of its lists are kept while it is pending.
* `host_to_host`: a read brings the bytes of a write into the buffer of the read, as they were in the buffer
  of the write.
-/

namespace Nvmev

open CInt Bytes Function Runs

/-- The address of byte `k` of the data of a command in the memory of the host. -/
def RwCommand.dataAddr (M : Prp.Mapping) (host : Mem) (cmd : RwCommand) (k : Nat) : Nat :=
  Prp.dataAddr M cmd.prp1 cmd.prp2 host (cmdIoSize cmd) {} (cmdIoSize cmd) k

/-- The addresses of the entries of its lists. -/
def RwCommand.listAddrs (M : Prp.Mapping) (host : Mem) (cmd : RwCommand) : List Nat :=
  Prp.listAddrs M cmd.prp1 cmd.prp2 host (cmdIoSize cmd) {} (cmdIoSize cmd)

namespace DataPath

variable {β : Type} {M : Prp.Mapping} {mapped : Nat → Nat} {storage₀ held : Mem} {cmd : RwCommand}
  {id : Nat × Nat} {s s' : Sys β}

/-- The entries of the lists of a command are those in `held`. -/
def ListsKept (M : Prp.Mapping) (held : Mem) (cmd : RwCommand) (host : Mem) : Prop :=
  ∀ a ∈ cmd.listAddrs M held, ∀ i < 8, host (a + i) = held (a + i)

/-- The data of a command is the one in `held`. -/
def DataKept (M : Prp.Mapping) (held : Mem) (cmd : RwCommand) (host : Mem) : Prop :=
  ∀ k < cmdIoSize cmd, host (cmd.dataAddr M held k) = held (cmd.dataAddr M held k)

/-! ## The walk along the PRPs -/

/-- The bytes behind the page that the worker is at. -/
def Copying.left (c : Copying) : Nat := c.remaining - (c.page.elim 0 Page.size)

/-- The worker is on its way along the PRPs in `held`. -/
structure Walk (M : Prp.Mapping) (held : Mem) (cmd : RwCommand) (fuel : Nat) (c : Copying) : Prop where
  enough : c.left ≤ fuel
  rest : ∀ k < c.left, cmd.dataAddr M held (cmdIoSize cmd - c.left + k) =
    Prp.dataAddr M cmd.prp1 cmd.prp2 held fuel c.cursor c.left k
  lists : ∀ a ∈ Prp.listAddrs M cmd.prp1 cmd.prp2 held fuel c.cursor c.left, a ∈ cmd.listAddrs M held
  page : ∀ p, c.page = some p → ∀ k < p.size,
    cmd.dataAddr M held (cmdIoSize cmd - c.remaining + k) = u64 (p.start + k)

section Walk

variable {fuel n : Nat} {c : Copying} {p : Page}

theorem walk_start (M : Prp.Mapping) (held : Mem) (cmd : RwCommand) (slot : Nat × Nat) (currNsecs : Nat) :
    Walk M held cmd (cmdIoSize cmd) (.start slot currNsecs cmd) where
  enough := Nat.le_refl _
  rest k _ := by
    have hleft : (Copying.start slot currNsecs cmd).left = cmdIoSize cmd := rfl
    rw [hleft, Nat.sub_self, Nat.zero_add]
    rfl
  lists _ ha := ha
  page := nofun

/-- A turn of the loop. -/
theorem Walk.turn (h : Walk M held cmd fuel c) (hat : c.At cmd n) (hpage : c.page = none)
    (hrem : c.remaining ≠ 0) {host : Mem} (hlists : ListsKept M held cmd host) :
    ∃ fuel, Walk M held cmd fuel (c.turn M cmd host) := by
  have hleft : c.left = c.remaining := by
    unfold Copying.left
    rw [hpage]
    rfl
  obtain ⟨hfuel, hrest, hl, -⟩ := h
  rw [hleft] at hfuel hrest hl
  obtain ⟨fuel, rfl⟩ : ∃ f, fuel = f + 1 := Nat.exists_eq_succ_of_ne_zero (by omega)
  rcases hn : Prp.nextPrp M cmd.prp1 cmd.prp2 held c.remaining c.cursor with ⟨paddr, cursor⟩
  have hsize := Prp.ioSize_le c.remaining paddr
  have hpos := Prp.ioSize_pos (Nat.pos_of_ne_zero hrem) paddr
  have hall := hat.remaining
  rw [Prp.listAddrs_succ hrem hn] at hl
  have hn' : Prp.nextPrp M cmd.prp1 cmd.prp2 host c.remaining c.cursor = (paddr, cursor) := by
    rw [← hn]
    exact Prp.nextPrp_congr fun a ha => hlists a (hl a (List.mem_append_left _ ha))
  unfold Copying.turn
  rw [hn']
  refine ⟨fuel, ?_, fun k hk => ?_, fun a ha => hl a (List.mem_append_right _ ha), fun p hp k hk => ?_⟩
  · dsimp only [Copying.left, Option.elim_some]
    omega
  · dsimp only [Copying.left, Option.elim_some] at hk ⊢
    rw [show cmdIoSize cmd - (c.remaining - Prp.ioSize c.remaining paddr) + k =
      cmdIoSize cmd - c.remaining + (Prp.ioSize c.remaining paddr + k) by omega, hrest _ (by omega)]
    exact Prp.dataAddr_add hn k
  · cases hp
    dsimp only at hk ⊢
    rw [hrest k (by omega)]
    exact Prp.dataAddr_page hn hk

theorem Walk.turned (h : Walk M held cmd fuel c) (hpage : c.page = some p) :
    Walk M held cmd fuel (c.turned p) := by
  have hleft : (c.turned p).left = c.left := by
    unfold Copying.left
    rw [hpage]
    rfl
  refine ⟨?_, ?_, ?_, nofun⟩
  · rw [hleft]
    exact h.enough
  · rw [hleft]
    exact h.rest
  · rw [hleft]
    exact h.lists

theorem Walk.byte (h : Walk M held cmd fuel c) (hpage : c.page = some p) :
    Walk M held cmd fuel { c with page := some { p with done := p.done + 1 } } := by
  have hleft : Copying.left { c with page := some { p with done := p.done + 1 } } = c.left := by
    unfold Copying.left
    rw [hpage]
    rfl
  refine ⟨?_, ?_, ?_, fun p' hp' => ?_⟩
  · rw [hleft]
    exact h.enough
  · rw [hleft]
    exact h.rest
  · rw [hleft]
    exact h.lists
  · cases hp'
    exact h.page p hpage

/-- The byte of the host that the `memcpy` is at. -/
theorem Walk.hostAddr (h : Walk M held cmd fuel c) (hat : c.At cmd n) (hpage : c.page = some p)
    (hdone : p.done < p.size) : u64 (p.start + p.done) = cmd.dataAddr M held n := by
  obtain ⟨-, -, hsize, hn, -⟩ := hat.page p hpage
  have hrem := hat.remaining
  rw [← h.page p hpage p.done hdone]
  congr 1
  omega

end Walk

/-! ## What is carried -/

/-- The request `id` moves the bytes of `cmd` between the storage and its buffer in `held`. -/
structure Carried (M : Prp.Mapping) (mapped : Nat → Nat) (held : Mem) (id : Nat × Nat) (cmd : RwCommand)
    (s : Sys β) : Prop where
  walk : ∀ i c, busy s i = some (id, cmd, c) → ∃ fuel, Walk M held cmd fuel c
  bytes : ∀ dir addr hostAddr byte, .dispatched id cmd ∈ s.log →
    .moved id dir addr hostAddr byte ∈ s.log →
    ∃ k < cmdIoSize cmd, addr = byteAddr mapped cmd k ∧ hostAddr = cmd.dataAddr M held k

section Step

variable {a : Action β} (hcase : StepCase M mapped s a s')

include hcase

/-- A step adds at most one event. A request that is dispatched has none before. -/
theorem StepCase.log_cases : s'.log = s.log ∨ ∃ ev, s'.log = s.log ++ [ev] ∧
    ∀ id cmd, ev = .dispatched id cmd → ∀ ev ∈ s.log, ev.id? ≠ some id := by
  cases hcase with
  | quiet hlog | host _ _ hlog | enter _ _ _ _ _ hlog => exact .inl hlog
  | turn _ _ _ _ _ _ _ hlog | turned _ _ _ _ _ _ _ hlog => exact .inl hlog
  | dispatched id cmd hnew hlog =>
    refine .inr ⟨_, hlog, fun id' cmd' heq => ?_⟩
    cases heq
    exact hnew
  | posted id cmd hlog => exact .inr ⟨_, hlog, nofun⟩
  | stored nsid addr byte hlog => exact .inr ⟨_, hlog, nofun⟩
  | moved i id cmd c p hi hpage hdone hlog => exact .inr ⟨_, hlog, nofun⟩

/-- The step that adds a move is one of a busy worker. -/
theorem StepCase.moved_of_log {dir : Prp.Dir} {addr hostAddr : Nat} {byte : UInt8}
    (hlog : s'.log = s.log ++ [.moved id dir addr hostAddr byte]) :
    ∃ i cmd c p, busy s i = some (id, cmd, c) ∧ c.page = some p ∧ p.done < p.size ∧
      addr = u64 (mapped c.nsid + c.offset + p.done) ∧ hostAddr = u64 (p.start + p.done) ∧
      (byte, s'.ms) = moveByte dir addr hostAddr s.ms := by
  have hsame (heq : s'.log = s.log) : False := by
    rw [heq] at hlog
    simp at hlog
  have hlast {ev : Event} (heq : s'.log = s.log ++ [ev]) : ev = .moved id dir addr hostAddr byte := by
    rw [heq] at hlog
    simpa using hlog
  cases hcase with
  | quiet hlog' | host _ _ hlog' | enter _ _ _ _ _ hlog' => exact (hsame hlog').elim
  | turn _ _ _ _ _ _ _ hlog' | turned _ _ _ _ _ _ _ hlog' => exact (hsame hlog').elim
  | dispatched id' cmd' hnew hlog' => cases hlast hlog'
  | posted id' cmd' hlog' => cases hlast hlog'
  | stored nsid addr byte hlog' => cases hlast hlog'
  | moved i id' cmd' c p hi hpage hdone hlog' hms =>
    cases hlast hlog'
    exact ⟨i, cmd', c, p, hi, hpage, hdone, rfl, rfl, by rw [hms]⟩

/-- What holds of the moves of a request, if it does of the one that the step adds. -/
theorem StepCase.forall_moved {Q : Prp.Dir → Nat → Nat → UInt8 → Prop}
    (hold : ∀ dir addr hostAddr byte, .dispatched id cmd ∈ s.log →
      .moved id dir addr hostAddr byte ∈ s.log → Q dir addr hostAddr byte)
    (hnew : ∀ dir addr hostAddr byte, .dispatched id cmd ∈ s.log →
      s'.log = s.log ++ [.moved id dir addr hostAddr byte] → Q dir addr hostAddr byte)
    (dir : Prp.Dir) (addr hostAddr : Nat) (byte : UInt8) (hd : .dispatched id cmd ∈ s'.log)
    (hm : .moved id dir addr hostAddr byte ∈ s'.log) : Q dir addr hostAddr byte := by
  obtain hlog | ⟨ev, hlog, hfresh⟩ := hcase.log_cases
  · rw [hlog] at hd hm
    exact hold dir addr hostAddr byte hd hm
  · have hd' := hd
    have hm' := hm
    rw [hlog, List.mem_append, List.mem_singleton] at hd' hm'
    obtain hd' | rfl := hd'
    · obtain hm' | rfl := hm'
      · exact hold dir addr hostAddr byte hd' hm'
      · exact hnew dir addr hostAddr byte hd' hlog
    · obtain hm' | heq := hm'
      · exact (hfresh id cmd rfl _ hm' rfl).elim
      · cases heq

variable (h : Inv mapped storage₀ s)

include h

/-- A busy worker goes on along the PRPs, where the lists of a pending request are kept. -/
theorem StepCase.walk (hwalk : ∀ i c, busy s i = some (id, cmd, c) → ∃ fuel, Walk M held cmd fuel c)
    (hlists : Pending s.log id cmd → ListsKept M held cmd s.ms.host) (i : Nat) (c : Copying)
    (hb : busy s' i = some (id, cmd, c)) : ∃ fuel, Walk M held cmd fuel c := by
  -- a worker that does not go on with the request
  have hold (hbusy : busy s' i = busy s i ∨ busy s' i = none) : ∃ fuel, Walk M held cmd fuel c := by
    obtain heq | hnone := hbusy
    · exact hwalk i c (heq ▸ hb)
    · rw [hnone] at hb
      cases hb
  cases hcase with
  | quiet hlog hms hbusy => exact hold (hbusy i)
  | host host ha hlog hms hbusy => exact hold (.inl (hbusy i))
  | dispatched id' cmd' hnew hlog hms hbusy => exact hold (.inl (hbusy i))
  | posted id' cmd' hlog hms hbusy => exact hold (hbusy i)
  | stored nsid addr byte hlog hms hbusy => exact hold (.inl (hbusy i))
  | enter j id' cmd' slot currNsecs hlog hms hj hbusy =>
    by_cases hij : i = j
    · subst hij
      rw [hj] at hb
      cases hb
      exact ⟨_, walk_start M held cmd slot currNsecs⟩
    · exact hold (.inl (hbusy i hij))
  | turn j id' cmd' c hj hpage hrem hlog hms hj' hbusy =>
    by_cases hij : i = j
    · subst hij
      rw [hj'] at hb
      cases hb
      obtain ⟨hpend, n, hat, -⟩ := h.busy_pending hj
      obtain ⟨fuel, hwalk⟩ := hwalk i c hj
      exact hwalk.turn hat hpage hrem (hlists hpend)
    · exact hold (.inl (hbusy i hij))
  | turned j id' cmd' c p hj hpage hlog hms hj' hbusy =>
    by_cases hij : i = j
    · subst hij
      rw [hj'] at hb
      cases hb
      obtain ⟨fuel, hwalk⟩ := hwalk i c hj
      exact ⟨fuel, hwalk.turned hpage⟩
    · exact hold (.inl (hbusy i hij))
  | moved j id' cmd' c p hj hpage hdone hlog hms hj' hbusy =>
    by_cases hij : i = j
    · subst hij
      rw [hj'] at hb
      cases hb
      obtain ⟨fuel, hwalk⟩ := hwalk i c hj
      exact ⟨fuel, hwalk.byte hpage⟩
    · exact hold (.inl (hbusy i hij))

/-- The next byte of a request. -/
theorem Carried.next (hcar : Carried M mapped held id cmd s) (hd : .dispatched id cmd ∈ s.log)
    {dir : Prp.Dir} {addr hostAddr : Nat} {byte : UInt8}
    (hlog : s'.log = s.log ++ [.moved id dir addr hostAddr byte]) :
    ∃ n < cmdIoSize cmd, Progress mapped s.log id cmd n ∧ addr = byteAddr mapped cmd n ∧
      hostAddr = cmd.dataAddr M held n ∧ (byte, s'.ms) = moveByte dir addr hostAddr s.ms := by
  obtain ⟨i, cmd', c, p, hb, hpage, hdone, rfl, rfl, hms⟩ := hcase.moved_of_log hlog
  obtain ⟨hpend, n, hat, hprog⟩ := h.busy_pending hb
  obtain rfl : cmd' = cmd := h.log.command id cmd' cmd hpend.dispatched hd
  obtain ⟨fuel, hwalk⟩ := hcar.walk i c hb
  obtain ⟨hn, -, haddr⟩ := hat.addr hpage hdone
  exact ⟨n, hn, hprog, haddr, hwalk.hostAddr hat hpage hdone, hms⟩

/-- Every step keeps it, where the lists of a pending request are kept. -/
theorem Carried.step (hcar : Carried M mapped held id cmd s)
    (hlists : Pending s.log id cmd → ListsKept M held cmd s.ms.host) :
    Carried M mapped held id cmd s' where
  walk := hcase.walk h hcar.walk hlists
  bytes := hcase.forall_moved hcar.bytes fun dir addr hostAddr byte hd hlog => by
    obtain ⟨n, hn, -, haddr, hhost, -⟩ := hcar.next hcase h hd hlog
    exact ⟨n, hn, haddr, hhost⟩

end Step

theorem carried_init (slots : Nat × Nat → RwCommand) (ms : Prp.Memories) :
    Carried M mapped held id cmd ({ slots, ms } : Sys β) where
  walk := nofun
  bytes := nofun

/-! ## The two ends -/

/-- The memory of the host has the lists and the data of a request while it is pending. -/
def SourceKept (M : Prp.Mapping) (held : Mem) (id : Nat × Nat) (cmd : RwCommand) (s : Sys β)
    (_ : Action β) : Prop :=
  Pending s.log id cmd → ListsKept M held cmd s.ms.host ∧ DataKept M held cmd s.ms.host

/-- The memory of the host has the lists of a request while it is pending, and from its dispatch on nobody
else changes its buffer. -/
def TargetKept (M : Prp.Mapping) (mapped : Nat → Nat) (held : Mem) (id : Nat × Nat) (cmd : RwCommand)
    (s : Sys β) (a : Action β) : Prop :=
  (Pending s.log id cmd → ListsKept M held cmd s.ms.host) ∧
    (.dispatched id cmd ∈ s.log → ∀ k < cmdIoSize cmd,
      (step M mapped s a).ms.host (cmd.dataAddr M held k) = s.ms.host (cmd.dataAddr M held k) ∨
        ∃ addr byte, (step M mapped s a).log =
          s.log ++ [.moved id .toHost addr (cmd.dataAddr M held k) byte])

/-- A write takes its bytes from the buffer. -/
structure Sent (M : Prp.Mapping) (mapped : Nat → Nat) (storage₀ held : Mem) (id : Nat × Nat)
    (cmd : RwCommand) (s : Sys β) : Prop where
  inv : Inv mapped storage₀ s
  carried : Carried M mapped held id cmd s
  sent : ∀ dir addr hostAddr byte, .dispatched id cmd ∈ s.log →
    .moved id dir addr hostAddr byte ∈ s.log → dir = .toStorage → byte = held hostAddr

/-- A read leaves its bytes in the buffer. -/
structure Received (M : Prp.Mapping) (mapped : Nat → Nat) (storage₀ held : Mem) (id : Nat × Nat)
    (cmd : RwCommand) (s : Sys β) : Prop where
  inv : Inv mapped storage₀ s
  carried : Carried M mapped held id cmd s
  received : ∀ dir addr hostAddr byte, .dispatched id cmd ∈ s.log →
    .moved id dir addr hostAddr byte ∈ s.log → dir = .toHost → s.ms.host hostAddr = byte

theorem Sent.step (h : Sent M mapped storage₀ held id cmd s) {a : Action β} (hwaits : HostWaits s a)
    (hkept : SourceKept M held id cmd s a) :
    Sent M mapped storage₀ held id cmd (DataPath.step M mapped s a) := by
  have hcase : StepCase M mapped s a (DataPath.step M mapped s a) := h.inv.step_cases hwaits
  refine ⟨h.inv.step hwaits, h.carried.step hcase h.inv fun hpend => (hkept hpend).1,
    hcase.forall_moved h.sent ?_⟩
  rintro dir addr hostAddr byte hd hlog rfl
  obtain ⟨i, cmd', c, p, hb, -⟩ := hcase.moved_of_log hlog
  obtain ⟨hpend, -⟩ := h.inv.busy_pending hb
  obtain rfl : cmd' = cmd := h.inv.log.command id cmd' cmd hpend.dispatched hd
  obtain ⟨n, hn, -, -, rfl, hms⟩ := h.carried.next hcase h.inv hd hlog
  rw [← (hkept hpend).2 n hn]
  exact congrArg Prod.fst hms

theorem Received.step (h : Received M mapped storage₀ held id cmd s)
    (hinj : ∀ k < cmdIoSize cmd, ∀ k' < cmdIoSize cmd,
      cmd.dataAddr M held k = cmd.dataAddr M held k' → k = k') {a : Action β} (hwaits : HostWaits s a)
    (hkept : TargetKept M mapped held id cmd s a) :
    Received M mapped storage₀ held id cmd (DataPath.step M mapped s a) := by
  have hcase : StepCase M mapped s a (DataPath.step M mapped s a) := h.inv.step_cases hwaits
  refine ⟨h.inv.step hwaits, h.carried.step hcase h.inv hkept.1,
    hcase.forall_moved (fun dir addr hostAddr byte hd hm hdir => ?_) ?_⟩
  · -- a byte that is there: the next move of the request is to another one
    obtain ⟨k, hk, rfl, rfl⟩ := h.carried.bytes dir addr hostAddr byte hd hm
    obtain hsame | ⟨addr', byte', hlog⟩ := hkept.2 hd k hk
    · rw [hsame]
      exact h.received dir _ _ byte hd hm hdir
    · obtain ⟨n, hn, hprog, -, hhost, -⟩ := h.carried.next hcase h.inv hd hlog
      obtain rfl := hinj k hk n hn hhost
      obtain ⟨-, -, k', hk', haddr⟩ := hprog.mem_iff.mp (mem_moves.mpr ⟨_, _, hm⟩)
      have := byteAddr_inj hk (Nat.lt_trans hk' hk) haddr
      omega
  · rintro dir addr hostAddr byte hd hlog rfl
    obtain ⟨n, -, -, -, rfl, hms⟩ := h.carried.next hcase h.inv hd hlog
    obtain ⟨rfl, hnext⟩ := Prod.mk.inj hms
    rw [hnext]
    exact update_self ..

end DataPath

section

variable {β : Type} (pfnValid : Nat → Bool) (mapped : Nat → Nat) (slots : Nat × Nat → RwCommand)
  (ms : Prp.Memories)

end

namespace DataPath

/-! ## The rest of the memory of the host -/

/-- The memory of the host is changed by the host and by reads. -/
theorem StepCase.host_cases {a : Action β} (hcase : StepCase M mapped s a s')
    (hno : ∀ host, a ≠ .host host) (x : Nat) : s'.ms.host x = s.ms.host x ∨
      ∃ id addr byte, s'.log = s.log ++ [.moved id .toHost addr x byte] := by
  cases hcase with
  | quiet _ hms | dispatched _ _ _ _ hms | posted _ _ _ hms => exact .inl (by rw [hms])
  | enter _ _ _ _ _ _ hms | turn _ _ _ _ _ _ _ _ hms => exact .inl (by rw [hms])
  | turned _ _ _ _ _ _ _ _ hms => exact .inl (by rw [hms])
  | host host ha => exact absurd ha (hno host)
  | stored _ _ _ _ hms => exact .inl (by rw [hms])
  | moved i id cmd c p hi hpage hdone hlog hms =>
    rw [hms, hlog]
    cases p.dir with
    | toStorage => exact .inl rfl
    | nowhere => exact .inl rfl
    | toHost =>
      by_cases hx : x = u64 (p.start + p.done)
      · subst hx
        exact .inr ⟨_, _, _, rfl⟩
      · exact .inl (update_of_ne hx ..)

section Run

variable {actions l : List (Action β)} (h : Inv mapped storage₀ s)
  (hwaits : AllSteps (step M mapped) HostWaits s actions)

include h hwaits

theorem log_prefix (hl : l <+: actions) :
    (l.foldl (step M mapped) s).log <+: (actions.foldl (step M mapped) s).log := by
  obtain ⟨l', rfl⟩ := hl
  induction l' using List.reverseRecOn with
  | nil => rw [List.append_nil]
  | append_singleton l' a ih =>
    rw [← List.append_assoc] at hwaits ⊢
    have hpre : l ++ l' <+: l ++ l' ++ [a] := List.prefix_append _ _
    refine (ih fun m b hm => hwaits m b (hm.trans hpre)).trans ?_
    have hinv : Inv mapped storage₀ ((l ++ l').foldl (step M mapped) s) :=
      invariant h hwaits (fun s a h hw => h.step hw) _ hpre
    rw [List.foldl_concat]
    obtain heq | ⟨ev, heq, -⟩ := (hinv.step_cases (hwaits _ a (List.prefix_refl _))).log_cases
    · rw [heq]
    · rw [heq]
      exact List.prefix_append _ _

/-- A byte that neither the host changes nor a read. -/
theorem host_unchanged (hno : ∀ a ∈ actions, ∀ host, a ≠ .host host) {x : Nat}
    (hx : ∀ id addr byte, .moved id .toHost addr x byte ∉ (actions.foldl (step M mapped) s).log)
    (hl : l <+: actions) : (l.foldl (step M mapped) s).ms.host x = s.ms.host x := by
  induction l using List.reverseRecOn with
  | nil => rfl
  | append_singleton l a ih =>
    have hpre : l <+: actions := (List.prefix_append l [a]).trans hl
    have hinv : Inv mapped storage₀ (l.foldl (step M mapped) s) :=
      invariant h hwaits (fun s a h hw => h.step hw) _ hpre
    have hlog := log_prefix h hwaits hl
    rw [List.foldl_concat] at hlog ⊢
    obtain hsame | ⟨id, addr, byte, heq⟩ :=
      (hinv.step_cases (hwaits l a hl)).host_cases (hno a (hl.subset (by simp))) x
    · rw [hsame, ih hpre]
    · rw [heq] at hlog
      exact absurd (hlog.subset (by simp)) (hx id addr byte)

end Run

/-! ## A write and a read of a block -/

/-- The data of a command in one page. -/
theorem dataAddr_onePage (hle : cmdIoSize cmd ≤ pageSize) (haligned : cmd.prp1 % pageSize = 0)
    (M : Prp.Mapping) (held : Mem) {k : Nat} (hk : k < cmdIoSize cmd) :
    cmd.dataAddr M held k = u64 (Prp.dataStart M cmd.prp1 + k) := by
  unfold RwCommand.dataAddr
  generalize cmdIoSize cmd = size at hle hk ⊢
  obtain ⟨n, rfl⟩ : ∃ n, size = n + 1 := Nat.exists_eq_succ_of_ne_zero (by omega)
  have hn : Prp.nextPrp M cmd.prp1 cmd.prp2 held (n + 1) {} = (cmd.prp1, { prpOffs := 1 }) := rfl
  refine Prp.dataAddr_page hn ?_
  rwa [Prp.ioSize_eq, haligned, Nat.sub_zero, Nat.min_eq_left hle]

theorem listsKept_onePage (hle : cmdIoSize cmd ≤ pageSize) (haligned : cmd.prp1 % pageSize = 0)
    (M : Prp.Mapping) (held host : Mem) : ListsKept M held cmd host := by
  have hnil : cmd.listAddrs M held = [] := by
    unfold RwCommand.listAddrs
    generalize cmdIoSize cmd = size at hle ⊢
    cases size with
    | zero => rfl
    | succ n =>
      have hn : Prp.nextPrp M cmd.prp1 cmd.prp2 held (n + 1) {} = (cmd.prp1, { prpOffs := 1 }) := rfl
      rw [Prp.listAddrs_succ (by omega) hn, Prp.ioSize_eq, haligned, Nat.sub_zero, Nat.min_eq_left hle,
        Nat.sub_self]
      cases n <;> rfl
  intro a ha
  rw [hnil] at ha
  cases ha


def blockPage (dir : Prp.Dir) (start : Nat) : Page := { dir, start, size := 512, done := 0 }

/-- The variables at the page of a block. -/
def blockCopying (slot : Nat × Nat) (p : Page) : Copying :=
  { slot, currNsecs := 10, nsid := 0, cursor := { prpOffs := 1 }, remaining := 512, offset := 4096
    page := some p }

/-- Up to the page of the write. A byte of it is cleared before. -/
def toWrite : List (Action Unit) :=
  [.store 0 4196 0, .submit (1, 0) blockWrite, .submit (1, 1) blockRead,
    .dispatch 0 (1, 0) blockWrite 1 0 0 0 { status := 0, nsecsTarget := 5 }, .other 0 .scan, .work 0 10,
    .work 0 10]

/-- From there to the page of the read. -/
def toRead : List (Action Unit) :=
  [.work 0 10, .work 0 10, .dispatch 1 (1, 1) blockRead 1 1 0 0 { status := 0, nsecsTarget := 5 },
    .other 1 .scan, .work 1 10, .work 1 10]

/-- A worker writes the block. When it has posted the completion, another reads it. -/
def writeAndRead : List (Action Unit) :=
  toWrite ++ (List.replicate 512 (.work 0 10) ++ (toRead ++ (List.replicate 512 (.work 1 10) ++
    [.work 1 10, .work 1 10])))

def blockStep : Sys Unit → Action Unit → Sys Unit := step (.remap fun _ => true) fun _ => 0

def blockInit : Sys Unit := { slots := fun _ => blockWrite, ms := twoMemories }

/-- The block is written. -/
def blockWritten : Sys Unit :=
  { toWrite.foldl blockStep blockInit with
    ms := memcpy .toStorage 4096 4096 512 (toWrite.foldl blockStep blockInit).ms
    copying := update (toWrite.foldl blockStep blockInit).copying 0
      (some (blockCopying (1, 0) { blockPage .toStorage 4096 with done := 512 }))
    log := (toWrite.foldl blockStep blockInit).log ++ (List.range 512).map
      ((blockCopying (1, 0) (blockPage .toStorage 4096)).event (fun _ => 0) (0, 0)
        (blockPage .toStorage 4096) (toWrite.foldl blockStep blockInit).ms) }

/-- And read. -/
def blockDelivered : Sys Unit :=
  { toRead.foldl blockStep blockWritten with
    ms := memcpy .toHost 4096 8192 512 blockWritten.ms
    copying := update (toRead.foldl blockStep blockWritten).copying 1
      (some (blockCopying (1, 1) { blockPage .toHost 8192 with done := 512 }))
    log := (toRead.foldl blockStep blockWritten).log ++ (List.range 512).map
      ((blockCopying (1, 1) (blockPage .toHost 8192)).event (fun _ => 0) (1, 0)
        (blockPage .toHost 8192) blockWritten.ms) }

theorem blockWritten_eq :
    (List.replicate 512 (.work 0 10)).foldl blockStep (toWrite.foldl blockStep blockInit) =
      blockWritten :=
  page_alone (c := blockCopying (1, 0) (blockPage .toStorage 4096)) (p := blockPage .toStorage 4096)
    (by decide +kernel) rfl rfl 10 (Nat.le_refl _) (by decide)

theorem blockDelivered_eq :
    (List.replicate 512 (.work 1 10)).foldl blockStep (toRead.foldl blockStep blockWritten) =
      blockDelivered :=
  page_alone (c := blockCopying (1, 1) (blockPage .toHost 8192)) (p := blockPage .toHost 8192)
    (by decide +kernel) rfl rfl 10 (Nat.le_refl _) (by decide)

theorem writeAndRead_eq : writeAndRead.foldl blockStep blockInit =
    [Action.work 1 10, .work 1 10].foldl blockStep blockDelivered := by
  unfold writeAndRead
  rw [List.foldl_append, List.foldl_append, blockWritten_eq, List.foldl_append, List.foldl_append,
    blockDelivered_eq]

theorem writeAndRead_filter :
    (writeAndRead.foldl blockStep blockInit).log.filter (fun ev => !ev.isMove) =
      [.stored 0 0 4196 0, .dispatched (0, 0) blockWrite, .posted (0, 0) blockWrite,
        .dispatched (1, 0) blockRead, .posted (1, 0) blockRead] := by
  rw [writeAndRead_eq]
  decide +kernel

/-- Only the read is copied to the host, and only to its page. -/
def Event.toPage : Event → Bool
  | .moved id dir _ hostAddr _ => dir ≠ .toHost ∨ id = (1, 0) ∧ 8192 ≤ hostAddr
  | .dispatched _ _ | .posted _ _ | .stored _ _ _ _ => true

theorem writeAndRead_toPage : (writeAndRead.foldl blockStep blockInit).log.all Event.toPage := by
  rw [writeAndRead_eq]
  decide +kernel

theorem hostWaits_writeAndRead : AllSteps blockStep HostWaits blockInit writeAndRead := by
  decide +kernel

/-- The host leaves its memory alone. -/
def Action.leavesMemory : Action β → Bool
  | .host _ => false
  | .store _ _ _ | .submit _ _ | .refuse _ _ | .dispatch _ _ _ _ _ _ _ _ | .other _ _ | .work _ _ => true

theorem writeAndRead_leavesMemory : writeAndRead.all Action.leavesMemory := by decide +kernel

theorem blockWrite_dataAddr (held : Mem) {k : Nat} (hk : k < cmdIoSize blockWrite) :
    blockWrite.dataAddr (.remap fun _ => true) held k = 4096 + k := by
  have hlt : 4096 + k < 2 ^ 64 := Nat.add_lt_add_left (Nat.lt_trans hk (by decide : 512 < 2 ^ 64 - 4096)) _
  rw [dataAddr_onePage (by decide) rfl _ _ hk]
  exact u64_of_lt hlt

theorem blockRead_dataAddr (held : Mem) {k : Nat} (hk : k < cmdIoSize blockRead) :
    blockRead.dataAddr (.remap fun _ => true) held k = 8192 + k := by
  have hlt : 8192 + k < 2 ^ 64 := Nat.add_lt_add_left (Nat.lt_trans hk (by decide : 512 < 2 ^ 64 - 8192)) _
  rw [dataAddr_onePage (by decide) rfl _ _ hk]
  exact u64_of_lt hlt

/-- A move to the host in the run. -/
theorem toHost_mem {id : Nat × Nat} {addr x : Nat} {byte : UInt8}
    (hm : .moved id .toHost addr x byte ∈ (writeAndRead.foldl blockStep blockInit).log) :
    id = (1, 0) ∧ 8192 ≤ x := by
  have := List.all_eq_true.mp writeAndRead_toPage _ hm
  simpa [Event.toPage] using this

theorem ne_host_of_mem {a : Action Unit} (ha : a ∈ writeAndRead) (host : Mem) : a ≠ .host host := by
  rintro rfl
  cases List.all_eq_true.mp writeAndRead_leavesMemory _ ha

theorem sourceKept_writeAndRead : AllSteps blockStep
    (SourceKept (.remap fun _ => true) UInt8.ofNat (0, 0) blockWrite) blockInit writeAndRead := by
  intro l a hl _
  refine ⟨listsKept_onePage (by decide) rfl _ _ _, fun k hk => ?_⟩
  refine host_unchanged (inv_init _ _) hostWaits_writeAndRead (fun _ => ne_host_of_mem)
    (fun id addr byte hm => ?_) ((List.prefix_append l [a]).trans hl)
  have hlt : k < 512 := hk
  rw [blockWrite_dataAddr _ hk] at hm
  have := (toHost_mem hm).2
  omega

theorem targetKept_writeAndRead : AllSteps blockStep
    (TargetKept (.remap fun _ => true) (fun _ => 0) (fun _ => 0) (1, 0) blockRead) blockInit
    writeAndRead := by
  intro l a hl
  refine ⟨fun _ => listsKept_onePage (by decide) rfl _ _ _, fun _ k hk => ?_⟩
  have hinv : Inv (fun _ => 0) (fun _ => 0) (l.foldl blockStep blockInit) :=
    invariant (inv_init _ twoMemories) hostWaits_writeAndRead (fun s a h hw => h.step hw) _
      ((List.prefix_append l [a]).trans hl)
  have hcase : StepCase (.remap fun _ => true) (fun _ => 0) (l.foldl blockStep blockInit) a
      (blockStep (l.foldl blockStep blockInit) a) := hinv.step_cases (hostWaits_writeAndRead l a hl)
  obtain hsame | ⟨id, addr, byte, hlog⟩ := hcase.host_cases (ne_host_of_mem (hl.subset (by simp)))
    (blockRead.dataAddr (.remap fun _ => true) (fun _ => 0) k)
  · exact .inl hsame
  · have hpre : ((l ++ [a]).foldl blockStep blockInit).log <+: (writeAndRead.foldl blockStep blockInit).log :=
      log_prefix (inv_init _ twoMemories) hostWaits_writeAndRead hl
    rw [List.foldl_concat, hlog] at hpre
    obtain ⟨rfl, -⟩ := toHost_mem (hpre.subset (List.mem_append_right _ (List.mem_singleton.mpr rfl)))
    exact .inr ⟨addr, byte, hlog⟩

end DataPath

end Nvmev
