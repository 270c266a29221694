import NvmeVirt.Conv.Runs

/-!
# Which commands the conventional FTL takes

`conv_read` and `conv_write` compare the last logical page of a command with the pages of the FTL. This
is not the end of the namespace: the FTL has more pages than the namespace advertises, and the end of the
command is computed modulo `2 ^ 64`. A command that fails the test is not completed with an error: the
handler returns false, and `nvmev_proc_io_sq` calls it again for ever.

* `accepted_inside_iff`: which commands are inside the namespace if they are accepted.
* `completes_iff_inside`: which commands are completed as they should when the write buffer is free.
-/

namespace Nvmev

open CInt Outcome

variable {τ : Type}

/-- The blocks of the command are in the namespace. -/
def Inside (ns : ConvNs τ) (cmd : RwCommand) : Prop := cmd.slba + cmd.nrLbas ≤ ns.size >>> lbaBits

instance (ns : ConvNs τ) (cmd : RwCommand) : Decidable (Inside ns cmd) :=
  inferInstanceAs (Decidable (_ ≤ _))

/-- The last block of the command, modulo `2 ^ 64`, is behind the pages of the FTL. -/
def BeyondFtl (ns : ConvNs τ) (cmd : RwCommand) : Prop :=
  8 * (ns.nrParts * (ns.ftls 0).sp.ttPgs) ≤ (cmd.slba + u16 cmd.length) % 2 ^ 64

instance (ns : ConvNs τ) (cmd : RwCommand) : Decidable (BeyondFtl ns cmd) :=
  inferInstanceAs (Decidable (_ ≤ _))

/-- The write buffer has no room for the blocks of the command. -/
def NoRoom (ns : ConvNs τ) (cmd : RwCommand) : Prop := ns.writeBuffer.remaining < cmd.nrLbas * 512

instance (ns : ConvNs τ) (cmd : RwCommand) : Decidable (NoRoom ns cmd) :=
  inferInstanceAs (Decidable (_ < _))

theorem inside_iff_onNs (ns : ConvNs τ) (cmd : RwCommand) : Inside ns cmd ↔ OnNs ns.size cmd := by
  have hshift : ns.size >>> lbaBits = ns.size / 512 := Nat.shiftRight_eq_div_pow ns.size 9
  unfold Inside OnNs
  rw [hshift]
  omega

/-- The bytes that `__do_perform_io` copies for a command inside are those of the namespace. -/
theorem Inside.bytes {ns : ConvNs τ} {cmd : RwCommand} (h : Inside ns cmd) :
    (cmd.slba <<< lbaBits) + (cmd.nrLbas <<< lbaBits) ≤ ns.size := by
  have hon := (inside_iff_onNs ns cmd).mp h
  unfold OnNs at hon
  rw [Nat.shiftLeft_eq, Nat.shiftLeft_eq, ← Nat.add_mul]
  exact hon

/-- `conv_write` does not report errors. -/
theorem convWrite_status (B : Nat → PerfModel τ) (ns : ConvNs τ) (req : RwRequest) :
    Partial (convWrite B ns req) fun o => o.ret.status = Sc.success := by
  have hany {α : Type} (x : Except Bug α) : Partial x fun _ => True := fun _ _ => trivial
  unfold convWrite
  dsimp only
  split
  · exact .ret rfl
  · refine (hany _).bind fun r _ => ?_
    split
    · exact .ret rfl
    · exact (hany _).bind fun s _ => .ret rfl

section Command

variable {ns : ConvNs τ} {req : RwRequest} (hparts : 0 < ns.nrParts)
  (hsectors : (ns.ftls 0).sp.Sectors)

include hparts hsectors

/-- The test of `conv_read` and `conv_write`. -/
theorem endLpn_ge_iff : endLpn ns req / ns.nrParts ≥ (ns.ftls 0).sp.ttPgs ↔ BeyondFtl ns req.cmd := by
  have hend : u64 (req.cmd.slba + req.cmd.nrLbas - 1) = (req.cmd.slba + u16 req.cmd.length) % 2 ^ 64 :=
    rfl
  unfold endLpn BeyondFtl
  rw [hsectors.secsPerPg, hend, ge_iff_le, Nat.le_div_iff_mul_le hparts,
    Nat.le_div_iff_mul_le (by decide)]
  rw [Nat.mul_comm ns.nrParts, Nat.mul_comm 8]

theorem accepts_iff : Accepts ns req ↔ ¬ BeyondFtl ns req.cmd ∧ ¬ NoRoom ns req.cmd := by
  rw [← endLpn_ge_iff hparts hsectors]
  constructor
  · intro h
    exact ⟨Nat.not_le_of_lt h.range, Nat.not_lt_of_le h.room⟩
  · rintro ⟨hrange, hroom⟩
    exact ⟨Nat.lt_of_not_le hrange, Nat.le_of_not_lt hroom⟩

theorem convRead_accepted (B : Nat → PerfModel τ) :
    (convRead B ns req).accepted = true ↔ ¬ BeyondFtl ns req.cmd := by
  rw [← endLpn_ge_iff hparts hsectors]
  unfold convRead
  dsimp only
  split
  · rename_i h
    exact iff_of_false Bool.false_ne_true fun hn => hn h
  · rename_i h
    exact iff_of_true rfl h

/-- A read or write that returns: whether it is accepted, and with which status. -/
theorem convProcNvmeIoCmd_accepted (B : Nat → PerfModel τ)
    (hop : req.cmd.opcode = .read ∨ req.cmd.opcode = .write) :
    Partial (convProcNvmeIoCmd B ns req) fun o => o.ret.status = Sc.success ∧
      (o.accepted = true ↔
        ¬ BeyondFtl ns req.cmd ∧ (req.cmd.opcode = .write → ¬ NoRoom ns req.cmd)) := by
  unfold convProcNvmeIoCmd
  rcases hop with hop | hop
  · simp only [hop, reduceCtorEq, false_implies, and_true]
    refine .ret ⟨?_, convRead_accepted hparts hsectors B⟩
    unfold convRead
    dsimp only
    split <;> rfl
  · simp only [hop, true_implies]
    have hspec : Spec False (convWrite B ns req) (WriteOutcome ns req fun _ => True) :=
      convWrite_spec B False.elim fun _ stime s _ _ => .ofPartial fun _ _ => trivial
    rw [← accepts_iff hparts hsectors]
    intro o ho
    refine ⟨convWrite_status B ns req o ho, ?_⟩
    cases hspec.post o ho with
    | refused h => exact iff_of_false Bool.false_ne_true h
    | done h => exact iff_of_true rfl h

/-- A command behind the pages of the FTL changes nothing, so that the next try is refused as well. -/
theorem refused_of_beyond (B : Nat → PerfModel τ)
    (hop : req.cmd.opcode = .read ∨ req.cmd.opcode = .write) (hbeyond : BeyondFtl ns req.cmd) :
    Total (convProcNvmeIoCmd B ns req) fun o => o.accepted = false ∧ o.ftl = ns ∧ o.cmd = req.cmd ∧
      o.ops = [] := by
  have htest : u64 (req.cmd.slba + req.cmd.nrLbas - 1) / (ns.ftls 0).sp.secsPerPg / ns.nrParts ≥
      (ns.ftls 0).sp.ttPgs := (endLpn_ge_iff hparts hsectors).mpr hbeyond
  unfold convProcNvmeIoCmd
  rcases hop with hop | hop
  · rw [hop]
    refine .ret ?_
    unfold convRead
    dsimp only
    rw [if_pos htest]
    exact ⟨rfl, rfl, rfl, rfl⟩
  · rw [hop]
    unfold convWrite
    dsimp only
    rw [if_pos htest]
    exact .ret ⟨rfl, rfl, rfl, rfl⟩

/-- An accepted command is inside the namespace if and only if it is, or the code refuses it. -/
theorem accepted_inside_iff (B : Nat → PerfModel τ)
    (hop : req.cmd.opcode = .read ∨ req.cmd.opcode = .write) :
    Partial (convProcNvmeIoCmd B ns req) fun o => (o.accepted = true → Inside ns req.cmd) ↔
      Inside ns req.cmd ∨ BeyondFtl ns req.cmd ∨ (req.cmd.opcode = .write ∧ NoRoom ns req.cmd) := by
  refine (convProcNvmeIoCmd_accepted hparts hsectors B hop).mono fun o ho => ?_
  rw [ho.2]
  tauto

end Command

section Namespace

variable {cfg : SsdConfig} {pbaPcent nrParts size : Nat} {sp : SsdParams}
  (h : ConvGeometry cfg pbaPcent nrParts size sp)

include h

/-- The blocks of the pages of the FTL are more than those of the namespace. -/
theorem ConvGeometry.nsSize_lt : nsSize size pbaPcent >>> lbaBits < 8 * (nrParts * sp.ttPgs) := by
  have hlt : hostLpns (nsSize size pbaPcent) nrParts < sp.ttPgs := by
    have hlpns := h.lpns
    have hle : (sp.ttLines - 4) * sp.pgsPerLine ≤ sp.ttLines * sp.pgsPerLine :=
      Nat.mul_le_mul_right _ (Nat.sub_le _ _)
    rw [h.geometry.ttPgs_eq, ← h.geometry.lines]
    omega
  have hshift : nsSize size pbaPcent >>> lbaBits = nsSize size pbaPcent / 512 :=
    Nat.shiftRight_eq_div_pow _ 9
  rw [hshift]
  by_contra hge
  have hparts := h.nrParts_pos
  have hpages : nrParts * sp.ttPgs ≤ divRoundUp (nsSize size pbaPcent / 512) 8 := by
    unfold divRoundUp
    omega
  have hround : sp.ttPgs ≤ hostLpns (nsSize size pbaPcent) nrParts := by
    unfold hostLpns
    generalize divRoundUp (nsSize size pbaPcent / 512) 8 = pages at hpages
    unfold divRoundUp
    rw [Nat.le_div_iff_mul_le hparts, Nat.mul_comm]
    omega
  omega

/-- The end of the test is behind the namespace. -/
theorem ConvGeometry.not_beyond {ns : ConvNs τ} (hns : ns.nrParts = nrParts) (hsp : (ns.ftls 0).sp = sp)
    (hsize : ns.size = nsSize size pbaPcent) {cmd : RwCommand}
    (hle : cmd.slba + u16 cmd.length ≤ ns.size >>> lbaBits) : ¬ BeyondFtl ns cmd := by
  have hlt := h.nsSize_lt
  have hmod := Nat.mod_le (cmd.slba + u16 cmd.length) (2 ^ 64)
  unfold BeyondFtl
  rw [hns, hsp]
  rw [hsize] at hle
  omega

end Namespace

/-- A write of the last page of the namespace. -/
theorem accepted_inside_iff_pro64 :
    Total (convInitNamespace .pro64 107 4 (2 ^ 22) (fun _ => .blank) ()) fun ns =>
      let req : RwRequest := { cmd := { opcode := .write, slba := 7648, length := 7 } }
      Partial (convProcNvmeIoCmd (fun _ => .instant) ns req) fun o =>
        (o.accepted = true → Inside ns req.cmd) ↔
          Inside ns req.cmd ∨ BeyondFtl ns req.cmd ∨ (req.cmd.opcode = .write ∧ NoRoom ns req.cmd) := by
  refine (convGeometry_pro64.init_fresh (fun _ => .blank) ()).mono ?_
  rintro ns ⟨hns, -, -, hftls⟩
  have hsp := (hftls 0 (by decide)).sp_eq
  refine accepted_inside_iff ?_ ?_ _ (.inr rfl)
  · rw [hns]
    decide
  · rw [hsp]
    exact ssdInitParams_sectors convGeometry_pro64.params

/-- In every namespace, two reads outside are accepted: of the block behind the namespace, and of eight
blocks whose end wraps around. -/
theorem reads_outside_accepted {cfg : SsdConfig} {pbaPcent nrParts size : Nat} {sp : SsdParams}
    (h : ConvGeometry cfg pbaPcent nrParts size sp) (B : Nat → PerfModel τ) (raw : Nat → ConvFtl)
    (perf : τ) : Total (convInitNamespace cfg pbaPcent nrParts size raw perf) fun ns =>
      let behind : RwRequest := { cmd := { opcode := .read, slba := ns.size >>> lbaBits, length := 0 } }
      let wraps : RwRequest := { cmd := { opcode := .read, slba := 2 ^ 64 - 1, length := 7 } }
      ((convRead B ns behind).accepted = true ∧ ¬ Inside ns behind.cmd) ∧
        ((convRead B ns wraps).accepted = true ∧ ¬ Inside ns wraps.cmd) := by
  refine (h.init_fresh raw perf).mono ?_
  rintro ns ⟨hns, hsize, -, hftls⟩
  have hsp := (hftls 0 h.nrParts_pos).sp_eq
  have hparts : 0 < ns.nrParts := hns ▸ h.nrParts_pos
  have hsectors : (ns.ftls 0).sp.Sectors := hsp ▸ ssdInitParams_sectors h.params
  refine ⟨⟨?_, ?_⟩, ?_, ?_⟩
  · rw [convRead_accepted hparts hsectors]
    exact h.not_beyond hns hsp hsize (Nat.le_refl _)
  · exact Nat.not_succ_le_self _
  · rw [convRead_accepted hparts hsectors]
    have hpages : 0 < ns.nrParts * (ns.ftls 0).sp.ttPgs := by
      have hpos := Nat.zero_lt_of_lt h.nsSize_lt
      rw [hns, hsp]
      omega
    have hend : ((2 ^ 64 - 1 : Nat) + u16 7) % 2 ^ 64 = 6 := by decide
    unfold BeyondFtl
    rw [hend]
    omega
  · have hlt : ns.size < 2 ^ 64 := by
      rw [hsize]
      exact Nat.lt_of_le_of_lt (Nat.div_le_self _ _) (Nat.mod_lt _ (by decide))
    have hshift : ns.size >>> lbaBits ≤ ns.size := Nat.shiftRight_le _ _
    have hlbas : RwCommand.nrLbas { opcode := .read, slba := 2 ^ 64 - 1, length := 7 } = 8 := by decide
    unfold Inside
    dsimp only
    rw [hlbas]
    omega

/-- The same of the four partitions in 4 MiB. -/
theorem reads_outside_accepted_pro64 :
    Total (convInitNamespace .pro64 107 4 (2 ^ 22) (fun _ => .blank) ()) fun ns =>
      let behind : RwRequest := { cmd := { opcode := .read, slba := ns.size >>> lbaBits, length := 0 } }
      let wraps : RwRequest := { cmd := { opcode := .read, slba := 2 ^ 64 - 1, length := 7 } }
      ((convRead (fun _ => .instant) ns behind).accepted = true ∧ ¬ Inside ns behind.cmd) ∧
        ((convRead (fun _ => .instant) ns wraps).accepted = true ∧ ¬ Inside ns wraps.cmd) :=
  reads_outside_accepted convGeometry_pro64 ..

/-! ## Commands that are not completed -/

/-- The command is accepted, and if it is not inside the namespace, it gets an error. -/
def Completes (B : Nat → PerfModel τ) (ns : ConvNs τ) (req : RwRequest) : Prop :=
  Total (convProcNvmeIoCmd B ns req) fun o =>
    o.accepted = true ∧ (¬ Inside ns req.cmd → o.ret.status ≠ Sc.success)

/-- In every run of writes inside the namespace, with the write buffer free: a command is completed as
it should if and only if it is inside. -/
theorem completes_iff_inside (B : Nat → PerfModel τ) {cfg : SsdConfig} {pbaPcent nrParts size : Nat}
    {sp : SsdParams} (h : ConvGeometry cfg pbaPcent nrParts size sp)
    (hlpns : hostLpns (nsSize size pbaPcent) nrParts ≤ 2 ^ 31) (hline : sp.pgsPerLine < 2 ^ 31)
    (raw : Nat → ConvFtl) (perf : τ) (events : List ConvEvent)
    (hon : ∀ e ∈ events, e.OnNs (nsSize size pbaPcent))
    (hfits : ∀ e ∈ events, e.FitsBuffer sp.writeBufferSize) :
    Total (convRun B cfg pbaPcent nrParts size raw perf events) fun s =>
      s.device.ns.writeBuffer.remaining = s.device.ns.writeBuffer.size →
      ∀ req : RwRequest, req.cmd.opcode = .read ∨ req.cmd.opcode = .write →
        req.cmd.nrLbas * 512 ≤ s.device.ns.writeBuffer.size →
        (Completes B s.device.ns req ↔ Inside s.device.ns req.cmd) := by
  have hm (_ : True) : min sp.ttPgs (2 ^ 31) = min sp.ttPgs (2 ^ 31) ∧
      hostLpns (nsSize size pbaPcent) nrParts ≤ 2 ^ 31 := ⟨rfl, hlpns⟩
  have hlim := h.limits (S := True) id hm fun _ => hline
  have hrun := h.run (S := True) id hm (fun _ => hline) B raw perf hon fun _ => hfits
  refine (hrun.total trivial).mono fun s hs hfree req hop hroom => ?_
  have hsp : (s.device.ns.ftls 0).sp = sp := (hs.parts 0 hs.nrParts_pos).sp_eq
  have hparts : 0 < s.device.ns.nrParts := hs.nrParts_eq ▸ hs.nrParts_pos
  have hsectors : (s.device.ns.ftls 0).sp.Sectors := hsp ▸ ssdInitParams_sectors h.params
  have haccepted := convProcNvmeIoCmd_accepted hparts hsectors B hop
  constructor
  · rintro ⟨o, ho, -, herror⟩
    by_contra hout
    exact herror hout (haccepted o ho).1
  · intro hin
    have hreq : OnNs (nsSize size pbaPcent) req.cmd := by
      rw [← hs.size_eq]
      exact (inside_iff_onNs _ _).mp hin
    have hstep : Spec True (s.step B (.command req)) (NsInv True True sp (min sp.ttPgs (2 ^ 31)) nrParts
        (nsSize size pbaPcent) sp.writeBufferSize) :=
      hs.step B hlim (fun _ => hreq) fun _ _ => hs.buffer ▸ hroom
    obtain ⟨s', hs'⟩ := hstep.returns trivial
    obtain ⟨o, ho, -⟩ := bind_ok.mp hs'
    refine ⟨o, ho, (haccepted o ho).2.mpr ⟨?_, fun _ => ?_⟩, fun hout => absurd hin hout⟩
    · refine h.not_beyond hs.nrParts_eq hsp hs.size_eq ?_
      have hle : req.cmd.slba + (u16 req.cmd.length + 1) ≤ s.device.ns.size >>> lbaBits := hin
      omega
    · unfold NoRoom
      omega

/-- A write of 32 pages, and the completions of its programs, which free the write buffer. -/
def writeCompleted : List ConvEvent :=
  [convWriteBlocks 0 255, .complete 2, .complete 0, .complete 0, .complete 0]

theorem writeCompleted_free :
    Total (convRun (fun _ => .instant) .pro64 107 4 (2 ^ 22) (fun _ => .blank) () writeCompleted) fun s =>
      s.device.ns.writeBuffer.remaining = s.device.ns.writeBuffer.size := by decide +kernel

/-- A device after a write that is completed. -/
theorem completes_iff_inside_pro64 :
    Total (convRun (fun _ => .instant) .pro64 107 4 (2 ^ 22) (fun _ => .blank) () writeCompleted) fun s =>
      ∀ req : RwRequest, req.cmd.opcode = .read ∨ req.cmd.opcode = .write →
        req.cmd.nrLbas * 512 ≤ s.device.ns.writeBuffer.size →
        (Completes (fun _ => .instant) s.device.ns req ↔ Inside s.device.ns req.cmd) := by
  have hon : ∀ e ∈ writeCompleted, e.OnNs (nsSize (2 ^ 22) 107) := by decide +kernel
  have hfits : ∀ e ∈ writeCompleted, e.FitsBuffer SsdParams.pro64.writeBufferSize := by decide +kernel
  exact (completes_iff_inside (fun _ => .instant) convGeometry_pro64 (by decide +kernel) (by decide)
    (fun _ => .blank) () writeCompleted hon hfits).mp writeCompleted_free

/-- With the write buffer free, a read of the first block behind the pages of the FTL is refused, and
nothing changes before the next try. -/
theorem read_refused_forever :
    Total (convInitNamespace .pro64 107 4 (2 ^ 22) (fun _ => .blank) ()) fun ns =>
      let req : RwRequest := { cmd := { opcode := .read, slba := 65536, length := 0 } }
      ns.writeBuffer.remaining = ns.writeBuffer.size ∧ req.cmd.nrLbas * 512 ≤ ns.writeBuffer.size ∧
        ¬ Completes (fun _ => .instant) ns req ∧
        Total (convProcNvmeIoCmd (fun _ => .instant) ns req) fun o =>
          o.accepted = false ∧ o.ftl = ns := by
  refine (convGeometry_pro64.init_fresh (fun _ => .blank) ()).mono ?_
  rintro ns ⟨hns, -, hbuffer, hftls⟩ req
  have hsp := (hftls 0 (by decide)).sp_eq
  have hparts : 0 < ns.nrParts := by
    rw [hns]
    decide
  have hsectors : (ns.ftls 0).sp.Sectors := hsp ▸ ssdInitParams_sectors convGeometry_pro64.params
  have hbeyond : BeyondFtl ns req.cmd := by
    unfold BeyondFtl
    rw [hns, hsp]
    decide
  obtain ⟨o, ho, hrefused, hftl, -⟩ :=
    refused_of_beyond hparts hsectors (fun _ => .instant) (.inl rfl) hbeyond
  refine ⟨by rw [hbuffer]; rfl, ?_, ?_, o, ho, hrefused, hftl⟩
  · rw [hbuffer]
    decide
  · rintro ⟨o', ho', haccepted, -⟩
    obtain rfl : o = o' := Except.ok.inj (ho.symm.trans ho')
    rw [hrefused] at haccepted
    cases haccepted

end Nvmev
