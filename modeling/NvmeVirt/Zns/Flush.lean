import NvmeVirt.Lib.Groups
import NvmeVirt.Zns.Coverage
import NvmeVirt.Zns.Device

/-!
# The NAND programs of a write

The loop of `__zns_write` programs a one-shot page when it comes to its last page, or to the last page
of the zone. `flushTurns` are these turns of the loop, with the bytes that each releases. They do not
depend on the timing backend: each is one `NAND_WRITE` (`writeLoop_log`) and one internal operation
(`writeLoop_ops`).

`flushTurns_spec`: of the pages of a zone, a write from page `p` to page `q` programs those one-shot
pages that the first `q + 1` pages complete and the first `p` do not. `writeTurns_spec` is the same for
the blocks of a write command.
-/

namespace Nvmev

open CInt Function Outcome Groups

/-- The backend `B` with a log of the NAND commands. -/
def PerfModel.logged {τ : Type} (B : PerfModel τ) : PerfModel (τ × List NandCmd) where
  advanceNand s cmd := ((B.advanceNand s.1 cmd).1, (B.advanceNand s.1 cmd).2, s.2 ++ [cmd])
  advancePcie s requestTime length :=
    ((B.advancePcie s.1 requestTime length).1, (B.advancePcie s.1 requestTime length).2, s.2)
  advanceWriteBuffer s requestTime length :=
    ((B.advanceWriteBuffer s.1 requestTime length).1, (B.advanceWriteBuffer s.1 requestTime length).2,
      s.2)
  nextIdleTime s := ((B.nextIdleTime s.1).1, (B.nextIdleTime s.1).2, s.2)
  localClock s := ((B.localClock s.1).1, (B.localClock s.1).2, s.2)

namespace Zns

variable {τ : Type} {sp : SsdParams} {zp : ZnsParams} {z z' : ZnsFtl τ} {zid i : Nat}

/-- The turns of the loop that program a one-shot page, with the bytes that they release. -/
def flushTurns (z : ZnsFtl τ) (zoneElpn elpn : Nat) : Nat → Nat → List (Nat × Nat)
  | 0, _ => []
  | fuel + 1, lpn =>
    if lpn ≤ elpn then
      let sp := z.ssd.sp
      let pgOff := (lpnToPpa z lpn).pg % sp.pgsPerOneshotpg
      let pgs := min (elpn - lpn + 1) (sp.pgsPerOneshotpg - pgOff)
      let unalignedSpace := z.zp.zoneSize % (sp.pgsPerOneshotpg * sp.pgsz)
      let turn :=
        if pgOff + pgs = sp.pgsPerOneshotpg ∨ lpn + pgs - 1 = zoneElpn then
          [(lpn, if lpn + pgs - 1 = zoneElpn ∧ unalignedSpace > 0 then unalignedSpace
            else sp.pgsPerOneshotpg * sp.pgsz)]
        else []
      turn ++ flushTurns z zoneElpn elpn fuel (lpn + pgs)
    else []

theorem lpnToPpa_congr (hsp : z'.ssd.sp = z.ssd.sp) (hzp : z'.zp = z.zp) (lpn : Nat) :
    lpnToPpa z' lpn = lpnToPpa z lpn := by
  unfold lpnToPpa lpnToZone zoneToSlpn dieToLun dieToChannel
  rw [hsp, hzp]

theorem flushTurns_congr (hsp : z'.ssd.sp = z.ssd.sp) (hzp : z'.zp = z.zp)
    (zoneElpn elpn fuel lpn : Nat) :
    flushTurns z' zoneElpn elpn fuel lpn = flushTurns z zoneElpn elpn fuel lpn := by
  induction fuel generalizing lpn with
  | zero => rfl
  | succ fuel ih =>
    unfold flushTurns
    simp only [hsp, hzp, lpnToPpa_congr hsp hzp, ih]

/-- The loop schedules one internal operation for each of these turns. -/
theorem writeLoop_ops (B : PerfModel τ) (sqId stime zoneElpn : Nat) (ref : BufferRef)
    (elpn fuel lpn : Nat) (s : FlushState τ) :
    (writeLoop z B sqId stime zoneElpn ref elpn fuel lpn s).ops.map
        (fun op => (op.writeBuffer, op.buffsToRelease)) =
      s.ops.map (fun op => (op.writeBuffer, op.buffsToRelease)) ++
        (flushTurns z zoneElpn elpn fuel lpn).map fun turn => (ref, turn.2) := by
  induction fuel generalizing lpn s with
  | zero => simp [writeLoop, flushTurns]
  | succ fuel ih =>
    unfold writeLoop flushTurns
    split
    · simp only [ih]
      split
      · simp [flushOneshot]
      · simp
    · simp

/-- Each of them is one `NAND_WRITE`, at the page where the turn starts. -/
theorem writeLoop_log (B : PerfModel τ) {z : ZnsFtl (τ × List NandCmd)} (sqId stime zoneElpn : Nat)
    (ref : BufferRef) (elpn fuel lpn : Nat) (s : FlushState (τ × List NandCmd)) :
    (writeLoop z B.logged sqId stime zoneElpn ref elpn fuel lpn s).perf.2.map
        (fun cmd => (cmd.cmd, cmd.ppa)) =
      s.perf.2.map (fun cmd => (cmd.cmd, cmd.ppa)) ++
        (flushTurns z zoneElpn elpn fuel lpn).map fun turn => (.write, lpnToPpa z turn.1) := by
  induction fuel generalizing lpn s with
  | zero => simp [writeLoop, flushTurns]
  | succ fuel ih =>
    unfold writeLoop flushTurns
    split
    · simp only [ih]
      split
      · simp [flushOneshot, PerfModel.logged]
      · simp
    · simp

/-! ## Which one-shot pages -/

/-- Pages of a zone. -/
def zonePages (zp : ZnsParams) : Nat := zp.zoneSize / 4096

section Pages

variable (hw : Wide sp zp) (h : Params sp zp z) (hi : Low zp i)

include hw

theorem zonePages_eq : zp.zoneSize = zonePages zp * 4096 ∧ zp.zoneSize / 512 = zonePages zp * 8 ∧
    0 < zonePages zp := by
  have h1 := hw.aligned
  have h2 := hw.pos
  unfold zonePages
  omega

include h hi

/-- The page `p` of the zone is page `p % o` of its one-shot page. -/
theorem lpnToPpa_pg (ho : sp.pgsPerOneshotpg ≤ 2 ^ 16) (hpos : 0 < sp.pgsPerOneshotpg) {p : Nat}
    (hp : p < zonePages zp) :
    (lpnToPpa z (i * zonePages zp + p)).pg % sp.pgsPerOneshotpg = p % sp.pgsPerOneshotpg := by
  obtain ⟨hsize, hlbas, hpages⟩ := zonePages_eq hw
  have hfits := hi.fits
  have hmul : i * (zonePages zp * 8) = i * zonePages zp * 8 := (Nat.mul_assoc _ _ _).symm
  rw [hlbas, hmul] at hfits
  have hcount := hi.lt.trans hw.count
  have hzone : lpnToZone z (i * zonePages zp + p) = i := by
    unfold lpnToZone
    rw [h.zp_eq, h.sp_eq, hw.sectors.pgsz]
    change u32 ((i * zonePages zp + p) / zonePages zp) = i
    rw [Nat.mul_comm, Nat.mul_add_div hpages, Nat.div_eq_of_lt hp, Nat.add_zero, u32_of_lt hcount]
  have hslpn : zoneToSlpn z i = i * zonePages zp := by
    unfold zoneToSlpn
    rw [h.zp_eq, h.sp_eq, hw.sectors.pgsz, u32_of_lt hcount]
    exact u32_of_lt (n := i * zonePages zp) (by omega)
  have hmod := Nat.mod_lt p hpos
  unfold lpnToPpa Ppa.ofFields
  simp only [hzone, hslpn, h.sp_eq]
  rw [sub64_of_le (by omega) (by omega), Nat.add_sub_cancel_left,
    Nat.mod_eq_of_lt (b := 2 ^ 16) (by omega), Nat.mod_mod]

theorem zoneToElpn_eq : zoneToElpn z i = i * zonePages zp + (zonePages zp - 1) := by
  obtain ⟨-, hlbas, hpages⟩ := zonePages_eq hw
  have hfits := hi.fits
  have hmul : i * (zonePages zp * 8) = i * zonePages zp * 8 := (Nat.mul_assoc _ _ _).symm
  rw [hlbas, hmul] at hfits
  have hlt : i + 1 < 2 ^ 32 := Nat.lt_of_le_of_lt hi.lt hw.count
  unfold zoneToElpn zoneToElba zoneToSlba
  rw [h.zoneLbas_eq hw, hlbas, h.sp_eq, hw.sectors.secsPerPg, u32_of_lt (u32_lt _), u32_of_lt hlt,
    Nat.succ_mul, hmul, u32_of_lt (by omega), sub64_of_le (by omega) (by omega)]
  omega

/-- The turns of a write from page `p` to page `q` of a zone: one for each one-shot page that it
completes, in order, with the bytes of the pages of it that are in the zone. -/
theorem flushTurns_spec (ho : sp.pgsPerOneshotpg ≤ 2 ^ 16) (hpos : 0 < sp.pgsPerOneshotpg) {q : Nat}
    (hq : q < zonePages zp) {fuel p : Nat} (hfuel : q + 1 - p ≤ fuel) (hp : p ≤ q + 1) :
    ∃ k, closed sp.pgsPerOneshotpg (zonePages zp) p + k =
        closed sp.pgsPerOneshotpg (zonePages zp) (q + 1) ∧
      (flushTurns z (zoneToElpn z i) (i * zonePages zp + q) fuel (i * zonePages zp + p)).map
          (fun turn => (turn.1 - i * zonePages zp) / sp.pgsPerOneshotpg) =
        List.range' (closed sp.pgsPerOneshotpg (zonePages zp) p) k ∧
      held sp.pgsPerOneshotpg (zonePages zp) p * 4096 +
        ((flushTurns z (zoneToElpn z i) (i * zonePages zp + q) fuel (i * zonePages zp + p)).map
          Prod.snd).sum = held sp.pgsPerOneshotpg (zonePages zp) (q + 1) * 4096 := by
  obtain ⟨hsize, -, hpages⟩ := zonePages_eq hw
  rw [zoneToElpn_eq hw h hi]
  generalize hoe : sp.pgsPerOneshotpg = o at *
  generalize hn : zonePages zp = n at *
  induction fuel generalizing p with
  | zero =>
    obtain rfl : p = q + 1 := by omega
    exact ⟨0, by simp [flushTurns]⟩
  | succ fuel ih =>
    by_cases hdone : p = q + 1
    · subst hdone
      rw [flushTurns, if_neg (by omega)]
      exact ⟨0, by simp⟩
    -- one turn, of `pgs` pages
    have hmod := Nat.mod_lt p hpos
    have hpg := lpnToPpa_pg hw h hi (by rw [hoe]; exact ho) (by rw [hoe]; exact hpos)
      (show p < zonePages zp by omega)
    rw [hoe, hn] at hpg
    obtain ⟨pgs, hpgs⟩ : ∃ pgs, pgs = min (i * n + q - (i * n + p) + 1) (o - p % o) := ⟨_, rfl⟩
    have hlo : 0 < pgs := by omega
    have hhi : p % o + pgs ≤ o := by omega
    have hend : p + pgs ≤ q + 1 := by omega
    have hlast : (i * n + p + pgs - 1 = i * n + (n - 1)) ↔ p + pgs = n := by omega
    have hun : zp.zoneSize % (o * 4096) = n % o * 4096 := by rw [hsize, Nat.mul_mod_mul_right]
    have hclosed := closed_turn hpos hlo hhi (n := n)
    have hheld := held_turn hpos hlo hhi (show p < n by omega) (by omega)
    obtain ⟨k, hk, hidx, hsum⟩ := ih (p := p + pgs) (by omega) hend
    have hcl := closed_of_lt (o := o) (show p < n by omega)
    rw [flushTurns, if_pos (by omega)]
    simp only [h.sp_eq, h.zp_eq, hw.sectors.pgsz, hoe, hpg, ← hpgs, hlast, hun]
    rw [Nat.add_assoc (i * n) p pgs]
    by_cases hflush : p % o + pgs = o ∨ p + pgs = n
    · rw [if_pos hflush] at hclosed hheld ⊢
      refine ⟨k + 1, by omega, ?_, ?_⟩
      · rw [List.map_append, hidx, List.range'_succ, hclosed, hcl]
        simp
      · rw [List.map_append, List.sum_append, ← hsum, hheld]
        have hbytes : (if p + pgs = n ∧ n % o * 4096 > 0 then n % o * 4096 else o * 4096) =
            (if p + pgs = n ∧ 0 < n % o then n % o else o) * 4096 := by
          by_cases hc : p + pgs = n ∧ 0 < n % o
          · rw [if_pos hc, if_pos ⟨hc.1, Nat.mul_pos hc.2 (by decide)⟩]
          · rw [if_neg hc, if_neg fun hc' => hc ⟨hc'.1, Nat.pos_of_mul_pos_right hc'.2⟩]
        simp only [List.map_cons, List.map_nil, List.sum_cons, List.sum_nil, hbytes, Nat.add_zero,
          Nat.add_mul, Nat.add_assoc]
    · rw [if_neg hflush] at hclosed hheld ⊢
      refine ⟨k, by omega, ?_, ?_⟩
      · rw [List.nil_append, hidx, hclosed, hcl, Nat.add_zero]
      · rw [List.nil_append, ← hsum, hheld, Nat.add_zero]

omit hw h hi in
theorem flushTurns_mem {zoneElpn elpn fuel lpn : Nat} {turn : Nat × Nat}
    (hmem : turn ∈ flushTurns z zoneElpn elpn fuel lpn) : lpn ≤ turn.1 ∧ turn.1 ≤ elpn := by
  induction fuel generalizing lpn with
  | zero => cases hmem
  | succ fuel ih =>
    unfold flushTurns at hmem
    split at hmem
    · rename_i hle
      simp only [List.mem_append] at hmem
      obtain hmem | hmem := hmem
      · split at hmem
        · rw [List.mem_singleton] at hmem
          subst hmem
          exact ⟨Nat.le_refl _, hle⟩
        · cases hmem
      · have := ih hmem
        omega
    · cases hmem

end Pages

/-! ## Writes of blocks

A write covers the blocks from `b` to `b + n` of its zone, eight of them a page. -/

/-- Bytes of the one-shot pages that the pages before block `b` complete. -/
def programmedBytes (sp : SsdParams) (zp : ZnsParams) (b : Nat) : Nat :=
  held sp.pgsPerOneshotpg (zonePages zp) (b / 8) * 4096

/-- Block `b` is inside the last page of a one-shot page, and not at its start. -/
def InLastPage (sp : SsdParams) (zp : ZnsParams) (b : Nat) : Prop :=
  b % 8 ≠ 0 ∧ (b / 8 % sp.pgsPerOneshotpg + 1 = sp.pgsPerOneshotpg ∨ b / 8 + 1 = zonePages zp)

instance : Decidable (InLastPage sp zp i) := inferInstanceAs (Decidable (_ ∧ _))

/-- The page of the last block is not complete, but the loop counts it. This makes no difference if no
one-shot page ends there. -/
theorem closed_of_not_inLastPage (hpos : 0 < sp.pgsPerOneshotpg) {b : Nat} (hb : 0 < b)
    (hle : b ≤ zonePages zp * 8) (hlast : ¬ InLastPage sp zp b) :
    closed sp.pgsPerOneshotpg (zonePages zp) ((b - 1) / 8 + 1) =
      closed sp.pgsPerOneshotpg (zonePages zp) (b / 8) := by
  by_cases hb8 : b % 8 = 0
  · congr 1
    omega
  · have hmod := Nat.mod_lt (b / 8) hpos
    have hend : ¬ (b / 8 % sp.pgsPerOneshotpg + 1 = sp.pgsPerOneshotpg ∨ b / 8 + 1 = zonePages zp) :=
      fun hend => hlast ⟨hb8, hend⟩
    have hpage : (b - 1) / 8 = b / 8 := by omega
    rw [hpage, closed_turn hpos (by decide) (by omega), if_neg hend, closed_of_lt (by omega), Nat.add_zero]

theorem programmedBytes_le (hpos : 0 < sp.pgsPerOneshotpg) {b : Nat} (hle : b ≤ zonePages zp * 8) :
    programmedBytes sp zp b ≤ b * 512 := by
  have h := held_le hpos (show b / 8 ≤ zonePages zp by omega)
  unfold programmedBytes
  omega

/-- The turns of a write of `n` blocks at `wp`. -/
def writeTurns (z : ZnsFtl τ) (i wp n : Nat) : List (Nat × Nat) :=
  flushTurns z (zoneToElpn z i) (lbaToLpn z (u64 (wp + n - 1)))
    (lbaToLpn z (u64 (wp + n - 1)) + 1 - lbaToLpn z wp) (lbaToLpn z wp)

/-- A write of `n` blocks from block `b` of the zone on programs the one-shot pages that it
completes, if it does not end in the last page of one. -/
theorem writeTurns_spec (hw : Wide sp zp) (h : Params sp zp z) (hi : Low zp i)
    (ho : sp.pgsPerOneshotpg ≤ 2 ^ 16) (hpos : 0 < sp.pgsPerOneshotpg) {wp b n : Nat} (hn : 0 < n)
    (hwp : wp = i * (zp.zoneSize / 512) + b) (hle : b + n ≤ zonePages zp * 8)
    (hlast : ¬ InLastPage sp zp (b + n)) :
    (∃ k, closed sp.pgsPerOneshotpg (zonePages zp) (b / 8) + k =
        closed sp.pgsPerOneshotpg (zonePages zp) ((b + n) / 8) ∧
      (writeTurns z i wp n).map (fun turn => (turn.1 - i * zonePages zp) / sp.pgsPerOneshotpg) =
        List.range' (closed sp.pgsPerOneshotpg (zonePages zp) (b / 8)) k) ∧
      programmedBytes sp zp b + ((writeTurns z i wp n).map Prod.snd).sum = programmedBytes sp zp (b + n) ∧
      ∀ turn ∈ writeTurns z i wp n, i * zonePages zp ≤ turn.1 ∧ turn.1 < i * zonePages zp + zonePages zp := by
  obtain ⟨-, hlbas, -⟩ := zonePages_eq hw
  have hfits := hi.fits
  have hmul : i * (zonePages zp * 8) = i * zonePages zp * 8 := (Nat.mul_assoc _ _ _).symm
  rw [hlbas, hmul] at hwp hfits
  have hstart : lbaToLpn z wp = i * zonePages zp + b / 8 := by
    unfold lbaToLpn
    rw [h.sp_eq, hw.sectors.secsPerPg]
    omega
  have hstop : lbaToLpn z (u64 (wp + n - 1)) = i * zonePages zp + (b + n - 1) / 8 := by
    unfold lbaToLpn
    rw [h.sp_eq, hw.sectors.secsPerPg, u64_of_lt (by omega)]
    omega
  have hfuel : (b + n - 1) / 8 + 1 - b / 8 ≤
      i * zonePages zp + (b + n - 1) / 8 + 1 - (i * zonePages zp + b / 8) := by omega
  obtain ⟨k, hk, hidx, hsum⟩ := flushTurns_spec hw h hi ho hpos (q := (b + n - 1) / 8) (by omega) hfuel
    (by omega)
  have hclosed := closed_of_not_inLastPage hpos (by omega) hle hlast
  unfold writeTurns
  rw [hstart, hstop]
  refine ⟨⟨k, hk.trans hclosed, hidx⟩, ?_, fun turn hmem => ?_⟩
  · unfold programmedBytes
    rw [hsum, held, hclosed, held]
  · have := flushTurns_mem hmem
    omega

end Zns

end Nvmev
