import NvmeVirt.Conv.Credits
import NvmeVirt.Conv.Device

/-!
# Runs of a conventional namespace

What the commands on a namespace keep: every partition is `Served`, for the logical pages that the
accepted writes covered so far. `S` is the condition for the commands to return, `M` the one for the
maps; both are parameters.

* `Parts.convWriteLpn`: one turn of the loop of `conv_write`.
* `NsInv.step`: one command or completion, with the log of the accepted writes.
-/

namespace Nvmev

open CInt Function Outcome

/-! ## Logical pages -/

/-- The logical page `lpn` is one of the pages of the command. -/
def Covers (cmd : RwCommand) (lpn : Nat) : Prop :=
  cmd.slba / 8 ≤ lpn ∧ lpn ≤ (cmd.slba + cmd.nrLbas - 1) / 8

/-- The blocks of the command are below `size` bytes. -/
def OnNs (size : Nat) (cmd : RwCommand) : Prop := (cmd.slba + cmd.nrLbas) * 512 ≤ size

instance (size : Nat) (cmd : RwCommand) : Decidable (OnNs size cmd) :=
  inferInstanceAs (Decidable ((cmd.slba + cmd.nrLbas) * 512 ≤ size))

/-- The logical pages of a partition that the host can address in a namespace of `size` bytes. -/
def hostLpns (size nrParts : Nat) : Nat := divRoundUp (divRoundUp (size / 512) 8) nrParts

theorem Covers.lt_hostLpns {size nrParts lpn : Nat} {cmd : RwCommand} (h : Covers cmd lpn)
    (hns : OnNs size cmd) (hparts : 0 < nrParts) : lpn / nrParts < hostLpns size nrParts := by
  have hpos := nrLbas_pos cmd
  have hlt : lpn + 1 ≤ divRoundUp (size / 512) 8 := by
    have hle := h.2
    unfold OnNs at hns
    unfold divRoundUp
    omega
  calc lpn / nrParts < lpn / nrParts + 1 := Nat.lt_succ_self _
    _ = (lpn + nrParts) / nrParts := (Nat.add_div_right lpn hparts).symm
    _ ≤ hostLpns size nrParts := by
      unfold hostLpns
      generalize divRoundUp (size / 512) 8 = g at hlt
      unfold divRoundUp
      exact Nat.div_le_div_right (by omega)

/-- The page `l` of the partition of `lpn` is `lpn`. -/
theorem local_eq_iff {nrParts l lpn : Nat} (hparts : 0 < nrParts) :
    l * nrParts + lpn % nrParts = lpn ↔ l = lpn / nrParts := by
  have hdiv := Nat.div_add_mod' lpn nrParts
  constructor
  · intro h
    have hmul : l * nrParts = lpn / nrParts * nrParts := by omega
    exact Nat.eq_of_mul_eq_mul_right hparts hmul
  · rintro rfl
    exact hdiv

/-- A page of another partition is not `lpn`. -/
theorem local_ne {nrParts l lpn p : Nat} (hp : p < nrParts) (hne : p ≠ lpn % nrParts) :
    l * nrParts + p ≠ lpn := by
  rintro rfl
  rw [Nat.mul_add_mod', Nat.mod_eq_of_lt hp] at hne
  exact hne rfl

/-! ## Partitions -/

/-- A partition between two pages of a write: idle, with credits for the next page. -/
structure Served (S M : Prop) (sp : SsdParams) (m : Nat) (written : Nat → Prop) (f : ConvFtl) : Prop where
  sp_eq : f.sp = sp
  idle : ∃ cls fill, Idle M m written f cls fill ∧ (S → Funded f fill)

/-- Every partition is served, for the logical pages `covered`. -/
def Parts (S M : Prop) (sp : SsdParams) (m nrParts : Nat) (covered : Nat → Prop)
    (ftls : Nat → ConvFtl) : Prop :=
  ∀ p < nrParts, Served S M sp m (fun l => covered (l * nrParts + p)) (ftls p)

section Turn

variable {S M : Prop} {sp : SsdParams} {m n nrParts : Nat} {covered : Nat → Prop}

/-- The limits of the geometry: with `n` logical pages of a partition that are written, of which `m` are
mapped. -/
structure Limits (S M : Prop) (sp : SsdParams) (m n : Nat) : Prop where
  maps : S → M
  small : S → sp.pgsPerLine < 2 ^ 31
  lpns : n < (sp.blksPerPl - 4) * sp.pgsPerLine
  mapped : M → n ≤ m

variable (hlim : Limits S M sp m n)

include hlim

omit hlim in
theorem consumeWriteCredit_eq (f : ConvFtl) : ∃ credits,
    (0 < f.wfc.writeCredits → f.wfc.writeCredits < 2 ^ 32 → credits = f.wfc.writeCredits - 1) ∧
      consumeWriteCredit f = { f with wfc := { f.wfc with writeCredits := credits } } :=
  ⟨dec32 f.wfc.writeCredits, dec32_of_pos, rfl⟩

/-- A page of a write to one partition, with the refill of its credits. -/
theorem Served.write {written : Nat → Prop} {f : ConvFtl} (h : Served S M sp m written f)
    (hwritten : ∀ l, written l → l < n) {lpn : Nat} (hlpn : lpn < n) :
    Spec S (convWritePage f lpn) fun r => Spec S (checkAndRefillWriteCredit (consumeWriteCredit r.2))
      fun f' => Served S M sp m (fun l => written l ∨ l = lpn) { f' with issued := [] } := by
  obtain ⟨rfl, cls, fill, hidle, hfunded⟩ := h
  have hroom (hS : S) : f.sp.pgsPerLine + 1 < space f fill := by
    have := (hfunded hS).space
    omega
  refine (hidle.convWritePage hlim.maps hlim.small hroom fun hM =>
    Nat.lt_of_lt_of_le hlpn (hlim.mapped hM)).mono ?_
  rintro ⟨ppa, f₁⟩ ⟨cls₁, fill₁, hw⟩
  dsimp only at hw ⊢
  obtain ⟨credits, hcredits, hconsume⟩ := consumeWriteCredit_eq f₁
  rw [hconsume]
  have howed (hS : S) : Owed { f₁ with wfc := { f₁.wfc with writeCredits := credits } } fill₁ := by
    have hf := hfunded hS
    have hpos := hf.pos
    have hspace₀ := hf.space
    have hspace := hw.space
    have hle := hf.credits_le
    have hsmall := hlim.small hS
    have hdec : credits = f.wfc.writeCredits - 1 := by
      rw [hw.wfc] at hcredits
      exact hcredits hpos (by omega)
    refine ⟨?_, ?_, ?_, ?_, (congrArg _ hw.cp).trans hf.thres⟩
    · change 0 < f₁.wfc.creditsToRefill
      rw [hw.wfc]
      exact hf.refill_pos
    · change f₁.wfc.creditsToRefill ≤ f₁.sp.pgsPerLine
      rw [hw.wfc, hw.sp]
      exact hf.refill_le
    · change credits ≤ f₁.sp.pgsPerLine
      rw [hdec, hw.sp]
      omega
    · change 2 * f₁.sp.pgsPerLine + 2 + credits ≤ space f₁ fill₁
      rw [hdec, hw.sp]
      omega
  refine ((hw.idle.setWfc _).checkAndRefillWriteCredit (n := n) hlim.maps ?_ ?_ howed).mono ?_
  · intro hS
    change f₁.sp.pgsPerLine < 2 ^ 31
    rw [hw.sp]
    exact hlim.small hS
  · refine fun _ => ⟨?_, ?_⟩
    · rintro l (hl | rfl)
      · exact hwritten l hl
      · exact hlpn
    · change n < (f₁.sp.blksPerPl - 4) * f₁.sp.pgsPerLine
      rw [hw.sp]
      exact hlim.lpns
  rintro f₂ ⟨cls₂, fill₂, hidle₂, hsp, -, hfunded₂⟩
  refine ⟨hsp.trans hw.sp, cls₂, fill₂, ⟨hidle₂.ready.congr rfl rfl rfl rfl rfl rfl, hidle₂.quiet,
    fun hM => (hidle₂.map hM).congr rfl rfl rfl rfl⟩, fun hS => ?_⟩
  have hf := hfunded₂ hS
  exact ⟨⟨hf.refill_pos, hf.refill_le, hf.credits_le, hf.space, hf.thres⟩, hf.pos⟩

variable {τ : Type} (B : Nat → PerfModel τ)

/-- One turn of the loop of `conv_write`. -/
theorem Parts.convWriteLpn {s : WriteLoop τ} (h : Parts S M sp m nrParts covered s.ftls)
    (hparts : 0 < nrParts) (hcov : ∀ lpn, covered lpn → lpn / nrParts < n) {sqId stime lpn : Nat}
    (hlpn : lpn / nrParts < n) : Spec S (convWriteLpn B nrParts sqId stime s lpn) fun s' =>
      Parts S M sp m nrParts (fun l => covered l ∨ l = lpn) s'.ftls := by
  have hp : lpn % nrParts < nrParts := Nat.mod_lt _ hparts
  refine convWriteLpn_spec B ((h _ hp).write hlim (fun l hl => ?_) hlpn) fun ppa f hf =>
    hf.mono fun f' hf' s' hs' => ?_
  · have hlt := hcov _ hl
    rwa [Nat.add_comm, Nat.add_mul_div_right _ _ hparts, Nat.div_eq_of_lt hp, Nat.zero_add] at hlt
  rw [hs'.ftls]
  intro p hlt
  by_cases hpe : p = lpn % nrParts
  · subst hpe
    rw [update_self]
    simpa only [local_eq_iff hparts] using hf'
  · rw [update_of_ne hpe]
    have hno (l : Nat) : ¬ l * nrParts + p = lpn := local_ne hlt hpe
    simpa only [hno, or_false] using h p hlt

end Turn

/-! ## Commands -/

/-- A device with the write commands that it accepted. -/
structure ConvLogged (τ : Type) where
  device : ConvDevice τ
  writes : List RwCommand := []

section Logged

variable {τ : Type} (B : Nat → PerfModel τ)

/-- One event, and the log. -/
def ConvLogged.step (s : ConvLogged τ) : ConvEvent → Except Bug (ConvLogged τ)
  | .command req => do
    let o ← convProcNvmeIoCmd B s.device.ns req
    pure { device := { ns := o.ftl, pending := s.device.pending ++ o.ops }
           writes := if req.cmd.opcode = .write ∧ o.accepted = true then s.writes ++ [req.cmd]
                     else s.writes }
  | .complete i => do
    let device ← s.device.step B (.complete i)
    pure { s with device }

/-- The logical pages of the accepted writes. -/
def ConvLogged.covered (s : ConvLogged τ) (lpn : Nat) : Prop := ∃ cmd ∈ s.writes, Covers cmd lpn

/-- The blocks of a write are below `size` bytes. -/
def ConvEvent.OnNs (size : Nat) : ConvEvent → Prop
  | .command req => req.cmd.opcode = .write → Nvmev.OnNs size req.cmd
  | .complete _ => True

instance (size : Nat) : DecidablePred (ConvEvent.OnNs size)
  | .command req => inferInstanceAs (Decidable (req.cmd.opcode = .write → Nvmev.OnNs size req.cmd))
  | .complete _ => .isTrue trivial

/-- A write is not larger than a write buffer of `size` bytes. -/
def ConvEvent.FitsBuffer (size : Nat) : ConvEvent → Prop
  | .command req => req.cmd.opcode = .write → req.cmd.nrLbas * 512 ≤ size
  | .complete _ => True

instance (size : Nat) : DecidablePred (ConvEvent.FitsBuffer size)
  | .command req =>
    inferInstanceAs (Decidable (req.cmd.opcode = .write → req.cmd.nrLbas * 512 ≤ size))
  | .complete _ => .isTrue trivial

/-- The namespace: its partitions are served for the pages of the accepted writes. -/
structure NsInv (S M : Prop) (sp : SsdParams) (m nrParts size wb : Nat) (s : ConvLogged τ) : Prop where
  nrParts_eq : s.device.ns.nrParts = nrParts
  nrParts_pos : 0 < nrParts
  size_eq : s.device.ns.size = size
  size_lt : size < 2 ^ 64
  buffer : s.device.ns.writeBuffer.size = wb
  parts : Parts S M sp m nrParts s.covered s.device.ns.ftls
  onNs : ∀ cmd ∈ s.writes, OnNs size cmd

variable {S M : Prop} {sp : SsdParams} {m nrParts size wb : Nat} {s : ConvLogged τ}
  (hlim : Limits S M sp m (hostLpns size nrParts))
  (h : NsInv S M sp m nrParts size wb s)

include h

theorem NsInv.covered_lt {lpn : Nat} (hlpn : s.covered lpn) : lpn / nrParts < hostLpns size nrParts := by
  obtain ⟨cmd, hcmd, hcov⟩ := hlpn
  exact hcov.lt_hostLpns (h.onNs cmd hcmd) h.nrParts_pos

/-- The pages of a command, as `conv_write` computes them. -/
theorem NsInv.pages {req : RwRequest} (hon : OnNs size req.cmd) :
    startLpn s.device.ns req = req.cmd.slba / 8 ∧
      endLpn s.device.ns req = (req.cmd.slba + req.cmd.nrLbas - 1) / 8 := by
  obtain ⟨hsp, cls, fill, hidle, -⟩ := h.parts 0 h.nrParts_pos
  have hsecs : (s.device.ns.ftls 0).sp.secsPerPg = 8 := hidle.ready.acc.geometry.secsPerPg
  have hsize := h.size_lt
  unfold OnNs at hon
  unfold startLpn endLpn
  rw [hsecs, u64_of_lt (by omega), u64_of_lt (by omega)]
  exact ⟨rfl, rfl⟩

/-- The loop of `conv_write` covers the pages of the command. -/
theorem NsInv.covers {req : RwRequest} (hon : OnNs size req.cmd) (device : ConvDevice τ) :
    (fun lpn => s.covered lpn ∨ (startLpn s.device.ns req ≤ lpn ∧ lpn < startLpn s.device.ns req +
      (endLpn s.device.ns req + 1 - startLpn s.device.ns req))) =
      ConvLogged.covered { device, writes := s.writes ++ [req.cmd] } := by
  obtain ⟨hstart, hend⟩ := h.pages hon
  have hpos := nrLbas_pos req.cmd
  funext lpn
  unfold ConvLogged.covered
  simp only [List.mem_append, List.mem_singleton, or_and_right, exists_or, exists_eq_left]
  refine propext (or_congr_right ?_)
  unfold Covers
  omega

include hlim

/-- The first `k` turns of the loop of `conv_write`. -/
theorem NsInv.loop {req : RwRequest} (hon : OnNs size req.cmd) {l : WriteLoop τ}
    (hl : l.ftls = s.device.ns.ftls) (stime : Nat) {k : Nat}
    (hk : k ≤ endLpn s.device.ns req + 1 - startLpn s.device.ns req) :
    Spec S (forRange k l fun l i =>
      convWriteLpn B nrParts req.sqId stime l (startLpn s.device.ns req + i)) fun l' =>
      Parts S M sp m nrParts (fun lpn => s.covered lpn ∨
        (startLpn s.device.ns req ≤ lpn ∧ lpn < startLpn s.device.ns req + k)) l'.ftls := by
  obtain ⟨hstart, hend⟩ := h.pages hon
  have hlt {lpn : Nat} (h1 : startLpn s.device.ns req ≤ lpn)
      (h2 : lpn < startLpn s.device.ns req + k) : lpn / nrParts < hostLpns size nrParts := by
    have hcov : Covers req.cmd lpn := ⟨by omega, by omega⟩
    exact hcov.lt_hostLpns hon h.nrParts_pos
  refine .forRange (I := fun i (l' : WriteLoop τ) => Parts S M sp m nrParts (fun lpn => s.covered lpn ∨
    (startLpn s.device.ns req ≤ lpn ∧ lpn < startLpn s.device.ns req + i)) l'.ftls) ?_ ?_
  · rw [hl]
    have hnone : (fun lpn => s.covered lpn ∨
        (startLpn s.device.ns req ≤ lpn ∧ lpn < startLpn s.device.ns req + 0)) = s.covered := by
      funext lpn
      refine propext ⟨?_, .inl⟩
      rintro (hc | hc)
      · exact hc
      · omega
    rw [hnone]
    exact h.parts
  · intro i hi l' hl'
    refine (hl'.convWriteLpn hlim B h.nrParts_pos ?_ (hlt (by omega) (by omega))).mono fun l'' hl'' => ?_
    · rintro lpn (hc | hc)
      · exact h.covered_lt hc
      · exact hlt hc.1 (by omega)
    · have hnext : (fun lpn => (s.covered lpn ∨
          (startLpn s.device.ns req ≤ lpn ∧ lpn < startLpn s.device.ns req + i)) ∨
            lpn = startLpn s.device.ns req + i) = fun lpn => s.covered lpn ∨
          (startLpn s.device.ns req ≤ lpn ∧ lpn < startLpn s.device.ns req + (i + 1)) := by
        funext lpn
        rw [or_assoc]
        refine propext (or_congr_right ?_)
        omega
      rwa [hnext] at hl''

/-- One event. -/
theorem NsInv.step {event : ConvEvent} (hon : event.OnNs size) (hfits : S → event.FitsBuffer wb) :
    Spec S (s.step B event) (NsInv S M sp m nrParts size wb) := by
  cases event with
  | command req =>
    unfold ConvLogged.step
    refine .bind (Q := fun o => NsInv S M sp m nrParts size wb
      { device := { ns := o.ftl, pending := s.device.pending ++ o.ops }
        writes := if req.cmd.opcode = .write ∧ o.accepted = true then s.writes ++ [req.cmd]
                  else s.writes }) ?_ fun o ho => .ret ho
    refine convProcNvmeIoCmd_spec B (fun hw => ?_) fun o hop hops hftl => ?_
    · refine (convWrite_spec B (J := fun l => Parts S M sp m nrParts (fun lpn => s.covered lpn ∨
        (startLpn s.device.ns req ≤ lpn ∧ lpn < startLpn s.device.ns req +
          (endLpn s.device.ns req + 1 - startLpn s.device.ns req))) l.ftls) ?_ ?_).mono ?_
      · intro hS
        rw [h.buffer]
        exact hfits hS hw
      · intro _ stime l hl _
        rw [h.nrParts_eq]
        exact h.loop B hlim (hon hw) hl stime (Nat.le_refl _)
      · intro o ho
        cases ho with
        | refused _ =>
          rw [if_neg (by simp)]
          exact ⟨h.nrParts_eq, h.nrParts_pos, h.size_eq, h.size_lt, h.buffer, h.parts, h.onNs⟩
        | done _ l hl =>
          rw [if_pos ⟨hw, rfl⟩]
          refine ⟨h.nrParts_eq, h.nrParts_pos, h.size_eq, h.size_lt, h.buffer, ?_, ?_⟩
          · rwa [h.covers (hon hw)] at hl
          · intro cmd hcmd
            obtain hcmd | hcmd := List.mem_append.mp hcmd
            · exact h.onNs cmd hcmd
            · rw [List.mem_singleton.mp hcmd]
              exact hon hw
    · obtain ⟨perf, hftl⟩ := hftl
      rw [if_neg (by simp [hop]), hftl]
      exact ⟨h.nrParts_eq, h.nrParts_pos, h.size_eq, h.size_lt, h.buffer, h.parts, h.onNs⟩
  | complete i =>
    unfold ConvLogged.step ConvDevice.step
    dsimp only
    split
    · exact .ret ⟨h.nrParts_eq, h.nrParts_pos, h.size_eq, h.size_lt, h.buffer, h.parts, h.onNs⟩
    · exact .ret h

end Logged

end Nvmev
