import NvmeVirt.Io.Linearizable

/-!
# What a step of the data path does

`busy s i` is the request that worker `i` is copying, its command and the variables of `__do_perform_io`.
`step_cases` says all that a step can do to the log, the memories and the busy workers.
-/

namespace Nvmev

open CInt Bytes Function

namespace DataPath

variable {β : Type} {M : Prp.Mapping} {mapped : Nat → Nat} {storage₀ : Mem}

/-- The request that worker `i` is copying. -/
def busy (s : Sys β) (i : Nat) : Option ((Nat × Nat) × RwCommand × Copying) :=
  (s.copying i).map fun c => ((i, (s.workers i).owner (s.workers i).curr), s.slots c.slot, c)

/-- What a step does. -/
inductive StepCase (M : Prp.Mapping) (mapped : Nat → Nat) (s : Sys β) (a : Action β) (s' : Sys β) : Prop
  /-- No byte is moved; a worker may be done. -/
  | quiet (hlog : s'.log = s.log) (hms : s'.ms = s.ms)
    (hbusy : ∀ j, busy s' j = busy s j ∨ busy s' j = none)
  | host (host : Mem) (ha : a = .host host) (hlog : s'.log = s.log) (hms : s'.ms = { s.ms with host })
    (hbusy : ∀ j, busy s' j = busy s j)
  | stored (nsid addr : Nat) (byte : UInt8)
    (hlog : s'.log = s.log ++ [.stored s.log.length nsid addr byte])
    (hms : s'.ms = { s.ms with storage := update s.ms.storage addr byte })
    (hbusy : ∀ j, busy s' j = busy s j)
  | dispatched (id : Nat × Nat) (cmd : RwCommand) (hnew : ∀ ev ∈ s.log, ev.id? ≠ some id)
    (hlog : s'.log = s.log ++ [.dispatched id cmd]) (hms : s'.ms = s.ms)
    (hbusy : ∀ j, busy s' j = busy s j)
  | posted (id : Nat × Nat) (cmd : RwCommand) (hlog : s'.log = s.log ++ [.posted id cmd])
    (hms : s'.ms = s.ms) (hbusy : ∀ j, busy s' j = busy s j ∨ busy s' j = none)
  | enter (i : Nat) (id : Nat × Nat) (cmd : RwCommand) (slot : Nat × Nat) (currNsecs : Nat)
    (hlog : s'.log = s.log) (hms : s'.ms = s.ms)
    (hi : busy s' i = some (id, cmd, .start slot currNsecs cmd)) (hbusy : ∀ j ≠ i, busy s' j = busy s j)
  | turn (i : Nat) (id : Nat × Nat) (cmd : RwCommand) (c : Copying) (hi : busy s i = some (id, cmd, c))
    (hpage : c.page = none) (hrem : c.remaining ≠ 0) (hlog : s'.log = s.log) (hms : s'.ms = s.ms)
    (hi' : busy s' i = some (id, cmd, c.turn M cmd s.ms.host)) (hbusy : ∀ j ≠ i, busy s' j = busy s j)
  | turned (i : Nat) (id : Nat × Nat) (cmd : RwCommand) (c : Copying) (p : Page)
    (hi : busy s i = some (id, cmd, c)) (hpage : c.page = some p) (hlog : s'.log = s.log)
    (hms : s'.ms = s.ms) (hi' : busy s' i = some (id, cmd, c.turned p))
    (hbusy : ∀ j ≠ i, busy s' j = busy s j)
  | moved (i : Nat) (id : Nat × Nat) (cmd : RwCommand) (c : Copying) (p : Page)
    (hi : busy s i = some (id, cmd, c)) (hpage : c.page = some p) (hdone : p.done < p.size)
    (hlog : s'.log = s.log ++ [.moved id p.dir (u64 (mapped c.nsid + c.offset + p.done))
      (u64 (p.start + p.done))
      (moveByte p.dir (u64 (mapped c.nsid + c.offset + p.done)) (u64 (p.start + p.done)) s.ms).1])
    (hms : s'.ms =
      (moveByte p.dir (u64 (mapped c.nsid + c.offset + p.done)) (u64 (p.start + p.done)) s.ms).2)
    (hi' : busy s' i = some (id, cmd, { c with page := some { p with done := p.done + 1 } }))
    (hbusy : ∀ j ≠ i, busy s' j = busy s j)

section Steps

variable {s : Sys β} {i : Nat}

theorem busy_some {id : Nat × Nat} {cmd : RwCommand} {c : Copying} (hb : busy s i = some (id, cmd, c)) :
    s.copying i = some c ∧ id = (i, (s.workers i).owner (s.workers i).curr) ∧ cmd = s.slots c.slot := by
  unfold busy at hb
  obtain ⟨c, hc, heq⟩ := Option.map_eq_some_iff.mp hb
  cases heq
  exact ⟨hc, rfl, rfl⟩

theorem busy_of_copying {c : Copying} (hc : s.copying i = some c) :
    busy s i = some ((i, (s.workers i).owner (s.workers i).curr), s.slots c.slot, c) := by
  unfold busy
  rw [hc]
  rfl

theorem busy_none (hc : s.copying i = none) : busy s i = none := by
  unfold busy
  rw [hc]
  rfl

/-- A worker keeps its request if its place and the slot are kept. -/
theorem busy_congr {s' : Sys β} (hc : s'.copying i = s.copying i)
    (hw : ∀ c, s.copying i = some c → (s'.workers i).curr = (s.workers i).curr ∧
      (s'.workers i).owner (s.workers i).curr = (s.workers i).owner (s.workers i).curr ∧
      s'.slots c.slot = s.slots c.slot) : busy s' i = busy s i := by
  cases hcop : s.copying i with
  | none => rw [busy_none hcop, busy_none (hc.trans hcop)]
  | some c =>
    obtain ⟨h1, h2, h3⟩ := hw c hcop
    rw [busy_of_copying hcop, busy_of_copying (hc.trans hcop), h1, h2, h3]

theorem busy_setCopying (s : Sys β) (c : Copying) (ms : Prp.Memories) (log : List Event) :
    busy { s with copying := update s.copying i (some c), ms, log } i =
      some ((i, (s.workers i).owner (s.workers i).curr), s.slots c.slot, c) :=
  busy_of_copying (update_self i (some c) s.copying)

/-- A step of worker `i` in `__do_perform_io` leaves the others alone. -/
theorem busy_update_copying (s : Sys β) (c : Option Copying) (ms : Prp.Memories) (log : List Event)
    {j : Nat} (hj : j ≠ i) : busy { s with copying := update s.copying i c, ms, log } j = busy s j :=
  busy_congr (update_of_ne hj _ _) fun _ _ => ⟨rfl, rfl, rfl⟩

variable (h : Inv mapped storage₀ s)

include h

/-- The request of a busy worker is pending, and its progress is where the variables say. -/
theorem Inv.busy_pending {id : Nat × Nat} {cmd : RwCommand} {c : Copying}
    (hb : busy s i = some (id, cmd, c)) :
    Pending s.log id cmd ∧ ∃ n, c.At cmd n ∧ Progress mapped s.log id cmd n := by
  obtain ⟨hc, rfl, rfl⟩ := busy_some hb
  obtain ⟨-, r, n, hr, -, hcs, hat, hprog⟩ := h.copying i _ hc
  obtain ⟨-, hpend, -⟩ := h.request i _ r hr
  obtain ⟨-, -, -, hitem, -⟩ := live_some hr
  rw [← hitem]
  refine ⟨?_, n, hat, hprog⟩
  rw [hcs]
  exact hpend

/-- No busy worker is at a slot without a request. -/
theorem Inv.busy_slot {slot : Nat × Nat} (hfree : s.used slot ≠ .dispatched) {c : Copying}
    (hc : s.copying i = some c) : c.slot ≠ slot := by
  obtain ⟨-, r, n, hr, -, hcs, -⟩ := h.copying i c hc
  rintro rfl
  rw [hcs] at hfree
  exact hfree (h.request i _ r hr).1

/-- The item of a worker that copies, in a worker with the same request. -/
theorem Inv.owner_curr {worker : Io.Sys β} {c : Copying} (hc : s.copying i = some c)
    (hlive : live worker (s.workers i).curr = live (s.workers i) (s.workers i).curr) :
    worker.owner (s.workers i).curr = (s.workers i).owner (s.workers i).curr := by
  obtain ⟨-, r, n, hr, -⟩ := h.copying i c hc
  obtain ⟨-, -, -, hitem, -⟩ := live_some hr
  rw [hr] at hlive
  obtain ⟨-, -, -, hitem', -⟩ := live_some hlive
  rw [← hitem, ← hitem']

/-- A slot without a request is written. -/
theorem Inv.busy_overwrite {slot : Nat × Nat} (hfree : s.used slot ≠ .dispatched) (cmd : RwCommand)
    (used : Nat × Nat → Use) (j : Nat) :
    busy { s with slots := update s.slots slot cmd, used } j = busy s j := by
  refine busy_congr rfl fun c hc => ⟨rfl, rfl, ?_⟩
  dsimp only
  rw [update_of_ne (h.busy_slot hfree hc)]

/-- A step that leaves the requests of worker `i` alone. -/
theorem Inv.busy_sameLive {worker : Io.Sys β} (hlive : ∀ e, live worker e = live (s.workers i) e)
    (hcurr : ∀ c, s.copying i = some c → worker.curr = (s.workers i).curr) (j : Nat) :
    busy { s with workers := update s.workers i worker } j = busy s j := by
  refine busy_congr rfl fun c hc => ?_
  dsimp only
  by_cases hj : j = i
  · subst hj
    rw [update_self]
    exact ⟨hcurr c hc, h.owner_curr hc (hlive _), rfl⟩
  · rw [update_of_ne hj]
    exact ⟨rfl, rfl, rfl⟩

omit h in
/-- A worker at an entry is done with copying. -/
theorem stepCase_visit (a : Action β) (i currNsecs : Nat) :
    StepCase M mapped s a ({ s with copying := update s.copying i none }.visit i currNsecs) := by
  have hbusy {s' : Sys β} (hc : s'.copying = update s.copying i none)
      (hw : ∀ j ≠ i, s'.workers j = s.workers j) (hs : s'.slots = s.slots) (j : Nat) :
      busy s' j = busy s j ∨ busy s' j = none := by
    by_cases hj : j = i
    · subst hj
      exact .inr (busy_none (by rw [hc, update_self]))
    · refine .inl (busy_congr ?_ fun c _ => ?_)
      · rw [hc, update_of_ne hj]
      · rw [hw j hj, hs]
        exact ⟨rfl, rfl, rfl⟩
  have hothers (worker : Io.Sys β) (j : Nat) (hj : j ≠ i) :
      update s.workers i worker j = s.workers j := update_of_ne hj _ _
  unfold Sys.visit
  dsimp only
  split
  · exact .posted _ _ rfl rfl (hbusy rfl (hothers _) rfl)
  · exact .quiet rfl rfl (hbusy rfl (hothers _) rfl)

omit h in
/-- A step of a worker in `__do_perform_io`. -/
theorem stepCase_copy (a : Action β) {c : Copying} (hc : s.copying i = some c) :
    StepCase M mapped s a (s.copy M mapped i c) := by
  unfold Sys.copy
  cases hp : c.page with
  | some p =>
    dsimp only
    split
    · rename_i hdone
      exact .moved i _ _ c p (busy_of_copying hc) hp hdone rfl rfl
        (busy_setCopying s { c with page := some { p with done := p.done + 1 } } _ _)
        fun j hj => busy_update_copying s _ _ _ hj
    · exact .turned i _ _ c p (busy_of_copying hc) hp rfl rfl (busy_setCopying s (c.turned p) _ _)
        fun j hj => busy_update_copying s _ _ _ hj
  | none =>
    dsimp only
    split
    · exact stepCase_visit a i c.currNsecs
    rename_i hrem
    split
    · exact .quiet rfl rfl fun _ => .inl rfl
    · exact .turn i _ _ c (busy_of_copying hc) hp hrem rfl rfl
        (busy_setCopying s (c.turn M (s.slots c.slot) s.ms.host) _ _)
        fun j hj => busy_update_copying s _ _ _ hj

omit h in
theorem stepCase_work (a : Action β) (i currNsecs : Nat) :
    StepCase M mapped s a (s.work M mapped i currNsecs) := by
  unfold Sys.work
  dsimp only
  split
  · exact .quiet rfl rfl fun _ => .inl rfl
  cases hc : s.copying i with
  | some c => exact stepCase_copy a hc
  | none =>
    dsimp only
    split
    · let w := (s.workers i).worker.workQueue (s.workers i).curr
      refine .enter i (i, (s.workers i).owner (s.workers i).curr) (s.slots (w.sqid, w.sqEntry))
        (w.sqid, w.sqEntry) currNsecs rfl rfl ?_ fun j hj => busy_congr (update_of_ne hj _ _) fun c _ => ?_
      · rw [busy_of_copying (update_self i _ s.copying)]
        dsimp only
        rw [update_self]
        rfl
      · dsimp only
        rw [update_of_ne hj]
        exact ⟨rfl, rfl, rfl⟩
    · have hvisit : StepCase M mapped s a _ := stepCase_visit a i currNsecs
      rwa [show update s.copying i none = s.copying by rw [← hc, update_eq_self]] at hvisit

/-- All that a step can do. -/
theorem Inv.step_cases {a : Action β} (hwaits : HostWaits s a) :
    StepCase M mapped s a (DataPath.step M mapped s a) := by
  cases a with
  | host host => exact .host host rfl rfl rfl fun _ => rfl
  | store nsid offset byte => exact .stored nsid _ byte rfl rfl fun _ => rfl
  | submit slot cmd =>
    exact .quiet rfl rfl fun j => .inl (h.busy_overwrite (by rw [hwaits.2]; nofun) cmd _ j)
  | refuse slot cmd =>
    unfold DataPath.step
    dsimp only
    split
    · rename_i hu
      exact .quiet rfl rfl fun j => .inl (h.busy_overwrite (by rw [hu]; nofun) cmd _ j)
    · exact .quiet rfl rfl fun _ => .inl rfl
  | dispatch i slot cmd cqid commandId nsecsStart nsecsEnqueue ret =>
    unfold DataPath.step
    dsimp only
    split
    · rename_i hu
      have htaken := h.overwrite (by rw [hu]; nofun) cmd .dispatched nofun
      have hbusy := h.busy_overwrite (by rw [hu]; nofun) cmd (update s.used slot .dispatched)
      obtain hsame | ⟨e₀, hnone, hn, hnew, hothers⟩ := (h.worker i).live_enqueue (h.queue slot hu) cqid
        slot.2 commandId nsecsStart nsecsEnqueue ret
      · rw [if_pos (by rw [hsame]), hsame, update_eq_self]
        exact .quiet rfl rfl fun j => .inl (hbusy j)
      · rw [if_neg (by omega)]
        refine .dispatched _ cmd (h.fresh i) rfl rfl fun j => ?_
        rw [← hbusy j]
        refine busy_congr rfl fun c hc => ?_
        dsimp only
        by_cases hj : j = i
        · subst hj
          rw [update_self]
          refine ⟨enqueue_curr _ _, h.owner_curr hc (hothers _ ?_), rfl⟩
          rintro rfl
          obtain ⟨-, r, -, hr, -⟩ := h.copying j c hc
          rw [hr] at hnone
          cases hnone
        · rw [update_of_ne hj]
          exact ⟨rfl, rfl, rfl⟩
    · exact .quiet rfl rfl fun _ => .inl rfl
  | other i action =>
    unfold DataPath.step
    dsimp only
    split
    · rename_i hq
      obtain ⟨-, hlive⟩ := (h.worker i).live_quiet hq
      exact .quiet rfl rfl fun j => .inl (h.busy_sameLive hlive
        (fun c hc => quiet_curr hq (h.copying i c hc).1) j)
    · exact .quiet rfl rfl fun _ => .inl rfl
  | work i currNsecs => exact stepCase_work _ i currNsecs

end Steps

end DataPath

end Nvmev
