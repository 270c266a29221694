import NvmeVirt.Io.DataPath

/-!
# A worker alone

A worker that takes its steps with nothing in between copies a page as one `memcpy` (`page_alone`), and in
`__do_perform_io` it changes the memories as `Prp.transfer` does from the mapped address of the command
(`work_alone`), if the PRPs do not lead to a list that is NULL. Where the namespace is mapped at 0, this is
`doPerformIo`.
-/

namespace Nvmev

open CInt Bytes Function

namespace DataPath

variable {β : Type} {M : Prp.Mapping} {mapped : Nat → Nat} {s : Sys β} {i : Nat} {c : Copying} {p : Page}

/-- The memories after `n` bytes of a `memcpy`. -/
def memcpy (dir : Prp.Dir) (addr hostAddr n : Nat) (ms : Prp.Memories) : Prp.Memories :=
  match dir with
  | .toStorage => { ms with storage := copyIn ms.storage addr (fun k => ms.host (u64 (hostAddr + k))) n }
  | .toHost => { ms with host := copyIn ms.host hostAddr (fun k => ms.storage (u64 (addr + k))) n }
  | .nowhere => ms

theorem memcpy_zero (dir : Prp.Dir) (addr hostAddr : Nat) (ms : Prp.Memories) :
    memcpy dir addr hostAddr 0 ms = ms := by
  cases dir <;> simp [memcpy]

/-- The next byte of a `memcpy` is the one from the beginning, since the memories are apart. -/
theorem moveByte_memcpy (dir : Prp.Dir) (addr hostAddr : Nat) (ms : Prp.Memories) {n : Nat}
    (hn : n < 2 ^ 64) :
    moveByte dir (u64 (addr + n)) (u64 (hostAddr + n)) (memcpy dir addr hostAddr n ms) =
      ((moveByte dir (u64 (addr + n)) (u64 (hostAddr + n)) ms).1,
        memcpy dir addr hostAddr (n + 1) ms) := by
  cases dir with
  | toStorage =>
    simp only [moveByte, memcpy]
    rw [copyIn_succ _ _ _ hn]
  | toHost =>
    simp only [moveByte, memcpy]
    rw [copyIn_succ _ _ _ hn]
  | nowhere => rfl

/-- `n` steps of worker `i`. -/
def works (M : Prp.Mapping) (mapped : Nat → Nat) (i now n : Nat) (s : Sys β) : Sys β :=
  (List.replicate n (Action.work i now)).foldl (step M mapped) s

theorem works_succ (i now n : Nat) (s : Sys β) :
    works M mapped i now (n + 1) s = (works M mapped i now n s).work M mapped i now := by
  unfold works
  rw [List.replicate_succ', List.foldl_append]
  rfl

theorem works_add (i now m n : Nat) (s : Sys β) :
    works M mapped i now (m + n) s = works M mapped i now n (works M mapped i now m s) := by
  unfold works
  rw [List.replicate_add, List.foldl_append]

/-- A worker in `__do_perform_io` goes on there. -/
theorem work_copy (hne : (s.workers i).curr ≠ noEntry) (hc : s.copying i = some c) (now : Nat) :
    s.work M mapped i now = s.copy M mapped i c := by
  unfold Sys.work
  dsimp only
  rw [if_neg hne, hc]

/-- The event of byte `n` of a page. -/
def Copying.event (mapped : Nat → Nat) (c : Copying) (id : Nat × Nat) (p : Page) (ms : Prp.Memories)
    (n : Nat) : Event :=
  .moved id p.dir (u64 (mapped c.nsid + c.offset + n)) (u64 (p.start + n))
    (moveByte p.dir (u64 (mapped c.nsid + c.offset + n)) (u64 (p.start + n)) ms).1

/-- The first `n` bytes of a page. -/
theorem page_alone (hne : (s.workers i).curr ≠ noEntry) (hc : s.copying i = some c)
    (hp : c.page = some { p with done := 0 }) (now : Nat) {n : Nat} (hn : n ≤ p.size)
    (hsize : p.size ≤ 2 ^ 64) :
    works M mapped i now n s =
      { s with
        ms := memcpy p.dir (mapped c.nsid + c.offset) p.start n s.ms
        copying := update s.copying i (some { c with page := some { p with done := n } })
        log := s.log ++ (List.range n).map
          (c.event mapped (i, (s.workers i).owner (s.workers i).curr) p s.ms) } := by
  induction n with
  | zero =>
    have hself : update s.copying i (some { c with page := some { p with done := 0 } }) = s.copying := by
      rw [← hp, ← hc, update_eq_self]
    rw [hself, memcpy_zero]
    simp [works]
  | succ n ih =>
    rw [works_succ, ih (by omega)]
    rw [work_copy _ (update_self i (some { c with page := some { p with done := n } }) s.copying)]
    · unfold Sys.copy
      dsimp only
      rw [if_pos (by omega), moveByte_memcpy _ _ _ _ (by omega)]
      dsimp only
      rw [update_idem, List.range_succ, List.map_append, List.append_assoc]
      rfl
    · exact hne

/-- A `memcpy` to or from an address modulo `2 ^ 64`. -/
theorem memcpy_u64 (dir : Prp.Dir) (addr hostAddr n : Nat) (ms : Prp.Memories) :
    memcpy dir (u64 addr) hostAddr n ms = memcpy dir addr hostAddr n ms := by
  have hadd (k : Nat) : u64 (u64 addr + k) = u64 (addr + k) := by
    unfold u64
    omega
  cases dir with
  | toStorage => simp only [memcpy, copyIn_u64]
  | toHost => simp only [memcpy, hadd]
  | nowhere => rfl

/-- A turn of the loop. -/
theorem transfer_succ {prp1 prp2 fuel remaining offset paddr : Nat} {dir : Prp.Dir}
    {cursor cursor' : Prp.Cursor} {ms : Prp.Memories} (h0 : remaining ≠ 0)
    (hn : Prp.nextPrp M prp1 prp2 ms.host remaining cursor = (paddr, cursor')) :
    Prp.transfer M prp1 prp2 dir (fuel + 1) cursor remaining offset ms =
      Prp.transfer M prp1 prp2 dir fuel cursor' (remaining - Prp.ioSize remaining paddr)
        (u64 (offset + Prp.ioSize remaining paddr))
        (memcpy dir offset (Prp.dataStart M paddr) (Prp.ioSize remaining paddr) ms) := by
  rw [Prp.transfer, if_neg h0, hn]
  cases dir <;> rfl

/-- The loop of `__do_perform_io`, where it does not come to a NULL list. -/
theorem loop_alone (M : Prp.Mapping) (mapped : Nat → Nat) (now : Nat) {fuel : Nat}
    (hne : (s.workers i).curr ≠ noEntry) (hc : s.copying i = some c) (hpage : c.page = none)
    (hfresh : c.cursor.Fresh)
    (hlist : ¬ Prp.NullList (s.slots c.slot).prp1 (s.slots c.slot).prp2 c.cursor c.remaining)
    (hfuel : c.remaining ≤ fuel) (hsize : c.remaining ≤ 2 ^ 64) :
    ∃ n c' log, works M mapped i now n s =
      { s with
        ms := Prp.transfer M (s.slots c.slot).prp1 (s.slots c.slot).prp2 (ioDir (s.slots c.slot).opcode)
          fuel c.cursor c.remaining (u64 (mapped c.nsid + c.offset)) s.ms
        copying := update s.copying i (some c')
        log } ∧
      c'.page = none ∧ c'.remaining = 0 ∧ c'.slot = c.slot ∧ c'.currNsecs = c.currNsecs := by
  induction fuel generalizing s c with
  | zero =>
    obtain h0 : c.remaining = 0 := by omega
    refine ⟨0, c, s.log, ?_, hpage, h0, rfl, rfl⟩
    rw [← hc, update_eq_self]
    rfl
  | succ fuel ih =>
    by_cases h0 : c.remaining = 0
    · refine ⟨0, c, s.log, ?_, hpage, h0, rfl, rfl⟩
      rw [← hc, update_eq_self, Prp.transfer, if_pos h0]
      rfl
    rcases hn : Prp.nextPrp M (s.slots c.slot).prp1 (s.slots c.slot).prp2 s.ms.host c.remaining c.cursor
      with ⟨paddr, cursor⟩
    have hpos := Prp.ioSize_pos (Nat.pos_of_ne_zero h0) paddr
    have hle := Prp.ioSize_le c.remaining paddr
    have hnull : ¬ c.cursor.nullList := fun h => hlist (Prp.NullList.of_cursor h h0)
    rw [transfer_succ h0 hn, memcpy_u64]
    -- the turn of the loop, its page, and the end of the turn
    let p : Page :=
      { dir := ioDir (s.slots c.slot).opcode, start := Prp.dataStart M paddr
        size := Prp.ioSize c.remaining paddr, done := Prp.ioSize c.remaining paddr }
    let d : Copying := { c with cursor, page := some p }
    obtain ⟨n, log, hcopied⟩ : ∃ n log, works M mapped i now n s =
        { s with
          ms := memcpy p.dir (mapped c.nsid + c.offset) p.start p.size s.ms
          copying := update s.copying i (some d)
          log } := by
      have hturn : works M mapped i now 1 s =
          { s with copying := update s.copying i (some (c.turn M (s.slots c.slot) s.ms.host)) } := by
        refine (work_copy hne hc now).trans ?_
        unfold Sys.copy
        rw [hpage]
        dsimp only
        rw [if_neg h0, if_neg hnull]
      have heq : c.turn M (s.slots c.slot) s.ms.host =
          { d with page := some { p with done := if p.dir = .nowhere then p.size else 0 } } := by
        unfold Copying.turn
        rw [hn]
      by_cases hdir : p.dir = .nowhere
      · have hnothing : memcpy p.dir (mapped c.nsid + c.offset) p.start p.size s.ms = s.ms := by
          rw [hdir]
          rfl
        refine ⟨1, s.log, ?_⟩
        rw [hturn, heq, if_pos hdir, hnothing]
      · rw [if_neg hdir] at heq
        refine ⟨1 + p.size, s.log ++ (List.range p.size).map (Copying.event mapped
          { d with page := some { p with done := 0 } } (i, (s.workers i).owner (s.workers i).curr) p s.ms), ?_⟩
        rw [works_add, hturn, heq,
          page_alone (c := { d with page := some { p with done := 0 } }) (p := p) ?_ (update_self ..) rfl now
            (Nat.le_refl _) ?_, update_idem]
        · exact hne
        · dsimp only [p]
          omega
    have hturned : works M mapped i now (n + 1) s =
        { s with
          ms := memcpy p.dir (mapped c.nsid + c.offset) p.start p.size s.ms
          copying := update s.copying i (some (d.turned p))
          log } := by
      rw [works_succ, hcopied, work_copy _ (update_self i (some d) s.copying)]
      · unfold Sys.copy
        dsimp only [d]
        rw [if_neg (Nat.lt_irrefl _), update_idem]
      · exact hne
    obtain ⟨m, c', log', hrest, hpage', hrem', hslot', hnow'⟩ := ih (s := { s with
        ms := memcpy p.dir (mapped c.nsid + c.offset) p.start p.size s.ms
        copying := update s.copying i (some (d.turned p))
        log }) hne (update_self i (some (d.turned p)) s.copying) rfl (hfresh.next hn)
      (fun h => hlist ((Prp.nullList_next hfresh hn hnull).mp h))
      (by dsimp only [Copying.turned, d, p]; omega) (by dsimp only [Copying.turned, d, p]; omega)
    refine ⟨n + 1 + m, c', log', ?_, hpage', hrem', hslot', hnow'⟩
    rw [works_add, hturned, hrest, update_idem]
    have hoff : u64 (mapped c.nsid + u64 (c.offset + p.size)) =
        u64 (u64 (mapped c.nsid + c.offset) + Prp.ioSize c.remaining paddr) := by
      dsimp only [p]
      unfold u64
      omega
    rw [← hoff]
    rfl

/-- A worker that nobody interrupts, from a request that is not copied and whose PRPs do not lead to a NULL
list: it changes the memories as `__do_perform_io` does in one step, and goes on with the entry. -/
theorem work_alone (now : Nat) (hne : (s.workers i).curr ≠ noEntry) (hc : s.copying i = none) {w : IoWork β}
    (hw : (s.workers i).worker.workQueue (s.workers i).curr = w)
    (hnew : w.isCompleted = false ∧ w.isCopied = false ∧ w.isInternal = false) {cmd : RwCommand}
    (hcmd : s.slots (w.sqid, w.sqEntry) = cmd)
    (hlist : ¬ Prp.NullList cmd.prp1 cmd.prp2 {} (cmdIoSize cmd)) :
    ∃ n log, works M mapped i now n s = Sys.visit
      { s with
        workers := update s.workers i
          { s.workers i with worker := { (s.workers i).worker with latestNsecs := now } }
        ms := Prp.transfer M cmd.prp1 cmd.prp2 (ioDir cmd.opcode) (cmdIoSize cmd) {} (cmdIoSize cmd)
          (u64 (mapped (dec32 cmd.nsid) + cmdIoOffset cmd)) s.ms
        log } i now := by
  subst hcmd hw
  have henter := hc
  let slot := (((s.workers i).worker.workQueue (s.workers i).curr).sqid,
    ((s.workers i).worker.workQueue (s.workers i).curr).sqEntry)
  let s₁ : Sys β := { s with
    workers := update s.workers i
      { s.workers i with worker := { (s.workers i).worker with latestNsecs := now } }
    copying := update s.copying i (some (.start slot now (s.slots slot))) }
  have hstart : works M mapped i now 1 s = s₁ := by
    show s.work M mapped i now = s₁
    unfold Sys.work
    dsimp only
    rw [if_neg hne, hc]
    dsimp only
    rw [if_pos hnew]
  have hne₁ : (s₁.workers i).curr ≠ noEntry := by
    dsimp only [s₁]
    rw [update_self]
    exact hne
  have hle := cmdIoSize_le (s.slots slot)
  obtain ⟨n, c, log, hloop, hpage, hrem, -, hnow⟩ := loop_alone M mapped now hne₁
    (update_self i (some (.start slot now (s.slots slot))) s.copying) rfl (fun _ => rfl) hlist (Nat.le_refl _)
    (Nat.le_trans hle (by decide))
  refine ⟨1 + n + 1, log, ?_⟩
  rw [works_succ, works_add, hstart, hloop, work_copy _ (update_self i (some c) s₁.copying)]
  · unfold Sys.copy
    rw [hpage]
    dsimp only
    rw [if_pos hrem, update_idem, hnow]
    dsimp only [s₁]
    rw [update_idem, ← hc, update_eq_self]
    rfl
  · exact hne₁

end DataPath

end Nvmev
