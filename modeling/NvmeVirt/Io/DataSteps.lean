import NvmeVirt.Io.DataHistory

/-!
# The data path: the invariant

`Inv` for each request that is not completed: its command is still in its slot, no other request has the
slot, and its bytes are moved as far as the worker is with it: none before the worker enters
`__do_perform_io`, as many as `Copying.At` says in its loop, and all of them afterwards. `Inv.step`: every step
keeps it, if the host waits for a slot.
-/

namespace Nvmev

open CInt Bytes Function

namespace DataPath

variable {β : Type} {mapped : Nat → Nat} {storage₀ : Mem}

/-! ## The loop of `__do_perform_io` -/

/-- `n` bytes of `cmd` are copied. -/
structure Copying.At (cmd : RwCommand) (n : Nat) (c : Copying) : Prop where
  nsid : c.nsid = dec32 cmd.nsid
  remaining : c.remaining ≤ cmdIoSize cmd
  offset : c.offset = u64 (cmdIoOffset cmd + (cmdIoSize cmd - c.remaining))
  between : c.page = none → n + c.remaining = cmdIoSize cmd
  page : ∀ p, c.page = some p → p.dir = ioDir cmd.opcode ∧ p.done ≤ p.size ∧ p.size ≤ c.remaining ∧
    n + c.remaining = cmdIoSize cmd + p.done ∧ (p.dir = .nowhere → p.done = p.size)

section Loop

variable {cmd : RwCommand} {n : Nat} {c : Copying} {p : Page}

theorem Copying.At.start (slot : Nat × Nat) (currNsecs : Nat) (cmd : RwCommand) :
    (Copying.start slot currNsecs cmd).At cmd 0 where
  nsid := rfl
  remaining := Nat.le_refl _
  offset := by
    unfold Copying.start cmdIoOffset lbaToByte u64
    simp
  between _ := Nat.zero_add _
  page := nofun

/-- The next page. A command that moves no data is done with it at once. -/
theorem Copying.At.turn (h : c.At cmd n) (hnone : c.page = none) (M : Prp.Mapping) (host : Mem) :
    ∃ n', (c.turn M cmd host).At cmd n' ∧ (ioDir cmd.opcode ≠ .nowhere → n' = n) := by
  have hbetween := h.between hnone
  rcases hnext : Prp.nextPrp M cmd.prp1 cmd.prp2 host c.remaining c.cursor with ⟨paddr, cursor⟩
  have hsize := Prp.ioSize_le c.remaining paddr
  unfold Copying.turn
  rw [hnext]
  dsimp only
  by_cases hdir : ioDir cmd.opcode = .nowhere
  · rw [if_pos hdir]
    refine ⟨n + Prp.ioSize c.remaining paddr, ⟨h.nsid, h.remaining, h.offset, nofun, fun p hp => ?_⟩,
      fun hne => absurd hdir hne⟩
    cases hp
    exact ⟨rfl, Nat.le_refl _, hsize, by dsimp only; omega, fun _ => rfl⟩
  · rw [if_neg hdir]
    refine ⟨n, ⟨h.nsid, h.remaining, h.offset, nofun, fun p hp => ?_⟩, fun _ => rfl⟩
    cases hp
    exact ⟨rfl, Nat.zero_le _, hsize, by dsimp only; omega, fun hc => absurd hc hdir⟩

theorem Copying.At.turned (h : c.At cmd n) (hp : c.page = some p) (hdone : ¬ p.done < p.size) :
    (c.turned p).At cmd n := by
  obtain ⟨-, hle, hsize, hn, -⟩ := h.page p hp
  have hrem := h.remaining
  refine ⟨h.nsid, ?_, ?_, fun _ => ?_, nofun⟩
  · dsimp only [Copying.turned]
    omega
  · dsimp only [Copying.turned]
    rw [h.offset]
    unfold u64
    omega
  · dsimp only [Copying.turned]
    omega

theorem Copying.At.byte (h : c.At cmd n) (hp : c.page = some p) (hdone : p.done < p.size) :
    { c with page := some { p with done := p.done + 1 } }.At cmd (n + 1) := by
  obtain ⟨hdir, hle, hsize, hn, hnowhere⟩ := h.page p hp
  refine ⟨h.nsid, h.remaining, h.offset, nofun, fun p' hp' => ?_⟩
  cases hp'
  refine ⟨hdir, hdone, hsize, by dsimp only; omega, fun hc => ?_⟩
  have := hnowhere hc
  omega

/-- The byte that the `memcpy` is at. -/
theorem Copying.At.addr (h : c.At cmd n) (hp : c.page = some p) (hdone : p.done < p.size) :
    n < cmdIoSize cmd ∧ ioDir cmd.opcode ≠ .nowhere ∧
      u64 (mapped c.nsid + c.offset + p.done) = byteAddr mapped cmd n := by
  obtain ⟨hdir, hle, hsize, hn, hnowhere⟩ := h.page p hp
  have hrem := h.remaining
  refine ⟨by omega, fun hc => ?_, ?_⟩
  · have := hnowhere (hdir.trans hc)
    omega
  · obtain rfl : n = cmdIoSize cmd - c.remaining + p.done := by omega
    rw [h.nsid, h.offset]
    unfold byteAddr u64
    omega

end Loop

/-! ## The invariant -/

/-- The requests, the workers that copy, and the log. -/
structure Inv (mapped : Nat → Nat) (storage₀ : Mem) (s : Sys β) : Prop where
  worker : ∀ i, WorkerOk (s.workers i)
  queue : ∀ slot, s.used slot = .submitted → slot.1 ≠ 0
  known : ∀ ev ∈ s.log, ∀ id, ev.id? = some id → id.2 < (s.workers id.1).nrItems
  request : ∀ i e r, live (s.workers i) e = some r → s.used r.slot = .dispatched ∧
    Pending s.log (i, r.item) (s.slots r.slot) ∧ (s.copying i = none ∨ e ≠ (s.workers i).curr →
      Progress mapped s.log (i, r.item) (s.slots r.slot)
        (if r.copied then cmdIoSize (s.slots r.slot) else 0))
  unique : ∀ i e r i' e' r', live (s.workers i) e = some r → live (s.workers i') e' = some r' →
    r.slot = r'.slot → i = i' ∧ e = e'
  copying : ∀ i c, s.copying i = some c → (s.workers i).curr ≠ noEntry ∧ ∃ r n,
    live (s.workers i) (s.workers i).curr = some r ∧ r.copied = false ∧ c.slot = r.slot ∧
      c.At (s.slots c.slot) n ∧ Progress mapped s.log (i, r.item) (s.slots c.slot) n
  log : LogOk mapped storage₀ s.log s.ms.storage

section Steps

variable {s : Sys β} {i : Nat} (h : Inv mapped storage₀ s)

include h

theorem Inv.host (host : Mem) : Inv mapped storage₀ { s with ms := { s.ms with host } } :=
  ⟨h.worker, h.queue, h.known, h.request, h.unique, h.copying, h.log⟩

/-- The dispatcher or a handler writes to the storage. -/
theorem Inv.stored (nsid addr : Nat) (byte : UInt8) :
    Inv mapped storage₀ { s with
      ms := { s.ms with storage := update s.ms.storage addr byte }
      log := s.log ++ [.stored s.log.length nsid addr byte] } where
  worker := h.worker
  queue := h.queue
  known ev hev id hid := by
    rw [List.mem_append, List.mem_singleton] at hev
    obtain hev | rfl := hev
    · exact h.known ev hev id hid
    · cases hid
  request i e r hr := by
    obtain ⟨hu, hpend, hprog⟩ := h.request i e r hr
    exact ⟨hu, hpend.of_ne nofun, fun hor => (hprog hor).concat rfl⟩
  unique := h.unique
  copying i c hc := by
    obtain ⟨hne, r, n, hr, hrc, hcs, hat, hprog⟩ := h.copying i c hc
    exact ⟨hne, r, n, hr, hrc, hcs, hat, hprog.concat rfl⟩
  log := h.log.stored_next nsid addr byte

/-- A slot without a request is written. -/
theorem Inv.overwrite {slot : Nat × Nat} (hfree : s.used slot ≠ .dispatched) (cmd : RwCommand) (use : Use)
    (hq : use = .submitted → slot.1 ≠ 0) :
    Inv mapped storage₀
      { s with slots := update s.slots slot cmd, used := update s.used slot use } := by
  have hslot {i e : Nat} {r : Live} (hr : live (s.workers i) e = some r) : r.slot ≠ slot := by
    rintro rfl
    exact hfree (h.request i e r hr).1
  refine ⟨h.worker, fun slot' hu => ?_, h.known, fun i e r hr => ?_, h.unique, fun i c hc => ?_, h.log⟩
  · dsimp only at hu
    by_cases heq : slot' = slot
    · subst heq
      rw [update_self] at hu
      exact hq hu
    · rw [update_of_ne heq] at hu
      exact h.queue slot' hu
  · dsimp only
    rw [update_of_ne (hslot hr), update_of_ne (hslot hr)]
    exact h.request i e r hr
  · obtain ⟨hne, r, n, hr, hcop, hcs, hat⟩ := h.copying i c hc
    refine ⟨hne, r, n, hr, hcop, hcs, ?_⟩
    dsimp only
    rw [update_of_ne (hcs ▸ hslot hr)]
    exact hat

/-- A step that leaves the requests of a worker alone. -/
theorem Inv.sameLive {worker : Io.Sys β} (hw : WorkerOk worker)
    (hn : (s.workers i).nrItems ≤ worker.nrItems) (hlive : ∀ e, live worker e = live (s.workers i) e)
    (hcurr : ∀ c, s.copying i = some c → worker.curr = (s.workers i).curr) :
    Inv mapped storage₀ { s with workers := update s.workers i worker } := by
  have hsame (j e : Nat) : live (update s.workers i worker j) e = live (s.workers j) e := by
    by_cases hj : j = i
    · subst hj
      rw [update_self, hlive]
    · rw [update_of_ne hj]
  have hc (j : Nat) (c : Copying) (hcop : s.copying j = some c) :
      (update s.workers i worker j).curr = (s.workers j).curr := by
    by_cases hj : j = i
    · subst hj
      rw [update_self, hcurr c hcop]
    · rw [update_of_ne hj]
  refine ⟨fun j => ?_, h.queue, fun ev hev id hid => ?_, fun j e r hr => ?_,
    fun j e r j' e' r' hr hr' => ?_, fun j c hcop => ?_, h.log⟩
  · by_cases hj : j = i
    · subst hj
      dsimp only
      rw [update_self]
      exact hw
    · dsimp only
      rw [update_of_ne hj]
      exact h.worker j
  · have hlt := h.known ev hev id hid
    dsimp only
    by_cases hj : id.1 = i
    · rw [hj, update_self]
      rw [hj] at hlt
      omega
    · rw [update_of_ne hj]
      exact hlt
  · dsimp only at hr
    rw [hsame] at hr
    obtain ⟨hused, hpend, hprog⟩ := h.request j e r hr
    refine ⟨hused, hpend, fun hor => hprog ?_⟩
    dsimp only at hor
    cases hcop : s.copying j with
    | none => exact .inl rfl
    | some c =>
      rw [hcop, hc j c hcop] at hor
      exact hor
  · dsimp only at hr hr'
    rw [hsame] at hr hr'
    exact h.unique j e r j' e' r' hr hr'
  · obtain ⟨hne, r, n, hr, hrest⟩ := h.copying j c hcop
    dsimp only
    rw [hc j c hcop]
    exact ⟨hne, r, n, by rw [hsame, hr], hrest⟩

/-- No event is of the next item. -/
theorem Inv.fresh (i : Nat) : ∀ ev ∈ s.log, ev.id? ≠ some (i, (s.workers i).nrItems) := by
  intro ev hev heq
  exact Nat.lt_irrefl _ (h.known ev hev _ heq)

/-- A new request for the command of a slot that has none. -/
theorem Inv.newRequest {worker : Io.Sys β} {slot : Nat × Nat} {e₀ : Nat} (hw : WorkerOk worker)
    (hn : worker.nrItems = (s.workers i).nrItems + 1) (hcurr : worker.curr = (s.workers i).curr)
    (hnone : live (s.workers i) e₀ = none)
    (hnew : live worker e₀ = some ⟨(s.workers i).nrItems, slot, false⟩)
    (hothers : ∀ e ≠ e₀, live worker e = live (s.workers i) e)
    (hused : s.used slot = .dispatched)
    (hfree : ∀ j e r, live (s.workers j) e = some r → r.slot ≠ slot) :
    Inv mapped storage₀ { s with
      workers := update s.workers i worker
      log := s.log ++ [.dispatched (i, (s.workers i).nrItems) (s.slots slot)] } := by
  have hfresh := h.fresh i
  have hcases {j e : Nat} {r : Live} (hr : live (update s.workers i worker j) e = some r) :
      (j = i ∧ e = e₀ ∧ r = ⟨(s.workers i).nrItems, slot, false⟩) ∨ live (s.workers j) e = some r := by
    by_cases hj : j = i
    · subst hj
      rw [update_self] at hr
      by_cases he : e = e₀
      · subst he
        rw [hnew] at hr
        cases hr
        exact .inl ⟨rfl, rfl, rfl⟩
      · rw [hothers e he] at hr
        exact .inr hr
    · rw [update_of_ne hj] at hr
      exact .inr hr
  have hcurrs (j : Nat) : (update s.workers i worker j).curr = (s.workers j).curr := by
    by_cases hj : j = i
    · subst hj
      rw [update_self, hcurr]
    · rw [update_of_ne hj]
  have hid {j e : Nat} {r : Live} (hr : live (s.workers j) e = some r) (cmd : RwCommand) :
      (Event.dispatched (i, (s.workers i).nrItems) cmd).id? ≠ some (j, r.item) := by
    intro heq
    obtain ⟨rfl, hitem⟩ := Prod.mk.inj (Option.some.inj heq)
    have hlt := (h.worker i).item_lt hr
    omega
  refine ⟨fun j => ?_, h.queue, fun ev hev id hid => ?_, fun j e r hr => ?_,
    fun j e r j' e' r' hr hr' hslot => ?_, fun j c hcop => ?_, h.log.dispatched hfresh⟩
  · by_cases hj : j = i
    · subst hj
      dsimp only
      rw [update_self]
      exact hw
    · dsimp only
      rw [update_of_ne hj]
      exact h.worker j
  · dsimp only at hev ⊢
    rw [List.mem_append, List.mem_singleton] at hev
    obtain hev | rfl := hev
    · have hlt := h.known ev hev id hid
      by_cases hj : id.1 = i
      · rw [hj, update_self]
        rw [hj] at hlt
        omega
      · rw [update_of_ne hj]
        exact hlt
    · cases hid
      rw [update_self]
      omega
  · obtain ⟨rfl, rfl, rfl⟩ | hold := hcases hr
    · refine ⟨hused, ⟨by simp, fun cmd' hmem => ?_⟩, fun _ => (progress_new hfresh).concat rfl⟩
      dsimp only at hmem
      rw [List.mem_append, List.mem_singleton] at hmem
      obtain hmem | heq := hmem
      · exact hfresh _ hmem rfl
      · cases heq
    · obtain ⟨hu, hpend, hprog⟩ := h.request j e r hold
      refine ⟨hu, hpend.of_ne (hid hold _), fun hor => (hprog ?_).concat (move?_of_ne (hid hold _))⟩
      dsimp only at hor
      rwa [hcurrs] at hor
  · obtain ⟨rfl, rfl, rfl⟩ | hold := hcases hr <;> obtain ⟨rfl, rfl, rfl⟩ | hold' := hcases hr'
    · exact ⟨rfl, rfl⟩
    · exact absurd hslot.symm (hfree _ _ _ hold')
    · exact absurd hslot (hfree _ _ _ hold)
    · exact h.unique j e r j' e' r' hold hold' hslot
  · obtain ⟨hne, r, n, hr, hrc, hcs, hat, hprog⟩ := h.copying j c hcop
    refine ⟨by dsimp only; rwa [hcurrs], r, n, ?_, hrc, hcs, hat, hprog.concat (move?_of_ne (hid hr _))⟩
    dsimp only
    rw [hcurrs]
    by_cases hj : j = i
    · subst hj
      rw [update_self, hothers _ fun hc => ?_, hr]
      rw [hc, hnone] at hr
      cases hr
    · rw [update_of_ne hj, hr]

/-- A worker goes on in `__do_perform_io` without moving a byte. -/
theorem Inv.setCopying {c c' : Copying} (hc : s.copying i = some c) (hslot : c'.slot = c.slot)
    (hat : ∀ n, c.At (s.slots c.slot) n → ∃ n', c'.At (s.slots c.slot) n' ∧
      (ioDir (s.slots c.slot).opcode ≠ .nowhere → n' = n)) :
    Inv mapped storage₀ { s with copying := update s.copying i (some c') } := by
  refine ⟨h.worker, h.queue, h.known, fun j e r hr => ?_, h.unique, fun j d hd => ?_, h.log⟩
  · obtain ⟨hu, hpend, hprog⟩ := h.request j e r hr
    refine ⟨hu, hpend, fun hor => hprog ?_⟩
    dsimp only at hor
    by_cases hj : j = i
    · subst hj
      rw [update_self] at hor
      exact hor.imp_left nofun
    · rwa [update_of_ne hj] at hor
  · dsimp only at hd ⊢
    by_cases hj : j = i
    · subst hj
      rw [update_self] at hd
      cases hd
      obtain ⟨hne, r, n, hr, hrc, hcs, hcat, hprog⟩ := h.copying j c hc
      obtain ⟨n', hat', hn'⟩ := hat n hcat
      rw [hslot]
      refine ⟨hne, r, n', hr, hrc, hcs, hat', ?_⟩
      unfold Progress at hprog ⊢
      rw [hprog]
      by_cases hdir : ioDir (s.slots c.slot).opcode = .nowhere
      · rw [if_pos hdir, if_pos hdir]
      · rw [hn' hdir]
    · rw [update_of_ne hj] at hd
      exact h.copying j d hd

/-- A worker enters `__do_perform_io`. -/
theorem Inv.enter (hnone : s.copying i = none) (hne : (s.workers i).curr ≠ noEntry) {r : Live}
    (hr : live (s.workers i) (s.workers i).curr = some r) (hrc : r.copied = false) (currNsecs : Nat) :
    Inv mapped storage₀
      { s with copying := update s.copying i (some (.start r.slot currNsecs (s.slots r.slot))) } := by
  refine ⟨h.worker, h.queue, h.known, fun j e r' hr' => ?_, h.unique, fun j d hd => ?_, h.log⟩
  · obtain ⟨hu, hpend, hprog⟩ := h.request j e r' hr'
    refine ⟨hu, hpend, fun hor => hprog ?_⟩
    dsimp only at hor
    by_cases hj : j = i
    · subst hj
      exact .inl hnone
    · rwa [update_of_ne hj] at hor
  · dsimp only at hd ⊢
    by_cases hj : j = i
    · subst hj
      rw [update_self] at hd
      cases hd
      obtain ⟨-, -, hprog⟩ := h.request j _ r hr
      have hprog := hprog (.inl hnone)
      rw [hrc] at hprog
      exact ⟨hne, r, 0, hr, hrc, rfl, .start _ _ _, hprog⟩
    · rw [update_of_ne hj] at hd
      exact h.copying j d hd

/-- A byte is moved. -/
theorem Inv.moved {c : Copying} {p : Page} (hc : s.copying i = some c) (hp : c.page = some p)
    (hdone : p.done < p.size) (hostAddr : Nat) :
    Inv mapped storage₀ { s with
      ms := (moveByte p.dir (u64 (mapped c.nsid + c.offset + p.done)) hostAddr s.ms).2
      copying := update s.copying i (some { c with page := some { p with done := p.done + 1 } })
      log := s.log ++ [.moved (i, (s.workers i).owner (s.workers i).curr) p.dir
        (u64 (mapped c.nsid + c.offset + p.done)) hostAddr
        (moveByte p.dir (u64 (mapped c.nsid + c.offset + p.done)) hostAddr s.ms).1] } := by
  obtain ⟨hne, r, n, hr, hrc, hcs, hat, hprog⟩ := h.copying i c hc
  obtain ⟨hu, hpend, -⟩ := h.request i _ r hr
  obtain ⟨hn, hdir, haddr⟩ : _ ∧ _ ∧ u64 (mapped c.nsid + c.offset + p.done) = _ := hat.addr hp hdone
  obtain ⟨hpdir, -⟩ := hat.page p hp
  obtain ⟨-, -, -, hitem, -⟩ := live_some hr
  rw [← hcs] at hpend
  rw [haddr, ← hitem]
  have hid {j e : Nat} {r' : Live} (hr' : live (s.workers j) e = some r')
      (hother : ¬ (j = i ∧ e = (s.workers i).curr)) : some (i, r.item) ≠ some (j, r'.item) := by
    intro heq
    obtain ⟨rfl, hitem'⟩ := Prod.mk.inj (Option.some.inj heq)
    exact hother ⟨rfl, (h.worker i).item_inj hr' hr hitem'.symm⟩
  refine ⟨h.worker, h.queue, fun ev hev id' hid' => ?_, fun j e r' hr' => ?_, h.unique, fun j d hd => ?_, ?_⟩
  · dsimp only at hev ⊢
    rw [List.mem_append, List.mem_singleton] at hev
    obtain hev | rfl := hev
    · exact h.known ev hev id' hid'
    · cases hid'
      exact (h.worker i).item_lt hr
  · obtain ⟨hu', hpend', hprog'⟩ := h.request j e r' hr'
    by_cases hcur : j = i ∧ e = (s.workers i).curr
    · obtain ⟨rfl, rfl⟩ := hcur
      rw [hr] at hr'
      cases hr'
      refine ⟨hu', hpend'.concat nofun, fun hor => ?_⟩
      dsimp only at hor
      rw [update_self] at hor
      simp at hor
    · refine ⟨hu', hpend'.of_ne (hid hr' hcur), fun hor => ?_⟩
      refine (hprog' ?_).concat (move?_of_ne (hid hr' hcur))
      dsimp only at hor
      by_cases hj : j = i
      · subst hj
        exact .inr fun he => hcur ⟨rfl, he⟩
      · rwa [update_of_ne hj] at hor
  · dsimp only at hd ⊢
    by_cases hj : j = i
    · subst hj
      rw [update_self] at hd
      cases hd
      refine ⟨hne, r, n + 1, hr, hrc, hcs, hat.byte hp hdone, ?_⟩
      rw [hpdir]
      exact hprog.moved hdir
    · rw [update_of_ne hj] at hd
      obtain ⟨hne', r', n', hr', hrc', hcs', hat', hprog'⟩ := h.copying j d hd
      exact ⟨hne', r', n', hr', hrc', hcs', hat',
        hprog'.concat (move?_of_ne (hid hr' fun hc => hj hc.1))⟩
  · rw [hpdir]
    exact h.log.moved hpend hprog hn hdir hostAddr

end Steps

end DataPath

end Nvmev
