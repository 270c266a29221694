import Mathlib.Data.Nat.Count
import NvmeVirt.Conv.Device
import NvmeVirt.Lib.Tally

/-!
# The write buffer of the conventional FTL

A write command takes the bytes of its blocks; the bytes of a whole one-shot page are released when the
last page of a word line is written. The bytes of the buffer are in three places: left in the buffer, in
the internal operations that are not completed, and in the word lines that the user write pointers of
the partitions have begun. `ledger` is their sum.

* `heldPages`: the pages of a begun word line, as a potential of the write pointer; `heldPages_next`
  is what one step of `advance_write_pointer` does to it.
* `convWriteLpn_ledger`: one page of a write adds the bytes of a page to the ledger, so that a write
  of whole pages keeps it.
* `conv_buffer_accounting`: the buffer never has more than its size, in every run of writes of whole
  pages.
-/

namespace Nvmev

open CInt Function Outcome Tally

/-! ## Word lines -/

/-- The page `pg` of a block ends a word line for `last_pg_in_wordline`, which reads the 16 bits of the
page number in a `struct ppa`. -/
def EndsWordline (o pg : Nat) : Prop := pg % 2 ^ 16 % o = o - 1

instance (o : Nat) : DecidablePred (EndsWordline o) := fun pg =>
  inferInstanceAs (Decidable (pg % 2 ^ 16 % o = o - 1))

/-- The number of word lines that end before page `n`. -/
def wordlines (o n : Nat) : Nat := Nat.count (EndsWordline o) n

theorem wordlines_succ (o n : Nat) :
    wordlines o (n + 1) = wordlines o n + if EndsWordline o n then 1 else 0 := Nat.count_succ _ _

/-- The place in the word line goes up by one page, or back to 0. -/
theorem place_succ (o n : Nat) :
    (n + 1) % 2 ^ 16 % o + (if EndsWordline o n then o else 0) ≤ n % 2 ^ 16 % o + 1 := by
  have hmod : (n + 1) % 2 ^ 16 = n % 2 ^ 16 + 1 ∨ (n + 1) % 2 ^ 16 = 0 := by omega
  have hle : (n + 1) % 2 ^ 16 % o ≤ n % 2 ^ 16 % o + 1 := by
    obtain hs | hs := hmod
    · rw [hs, ← Nat.mod_add_mod]
      exact Nat.mod_le _ _
    · rw [hs, Nat.zero_mod]
      exact Nat.zero_le _
  split
  · rename_i hend
    unfold EndsWordline at hend
    by_cases ho : o = 0
    · subst ho
      omega
    · have hzero : (n + 1) % 2 ^ 16 % o = 0 := by
        obtain hs | hs := hmod
        · rw [hs, ← Nat.mod_add_mod, hend, Nat.sub_add_cancel (by omega), Nat.mod_self]
        · rw [hs, Nat.zero_mod]
      omega
  · exact hle

/-- Word lines end at most once in `o` pages. -/
theorem wordlines_add (o n j : Nat) :
    o * wordlines o (n + j) + (n + j) % 2 ^ 16 % o ≤ o * wordlines o n + n % 2 ^ 16 % o + j := by
  induction j with
  | zero => exact Nat.le_refl _
  | succ j ih =>
    have hplace := place_succ o (n + j)
    rw [← Nat.add_assoc, wordlines_succ, Nat.mul_add]
    split at hplace
    · rw [if_pos ‹_›]
      omega
    · rw [if_neg ‹_›]
      omega

theorem wordlines_mul_le (o n : Nat) : o * wordlines o n ≤ n := by
  have h := wordlines_add o 0 n
  rw [Nat.zero_add, Nat.zero_mod, Nat.zero_mod] at h
  have h0 : wordlines o 0 = 0 := Nat.count_zero _
  rw [h0] at h
  omega

theorem wordlines_wordline (o n : Nat) : o * wordlines o (n + o) ≤ o * wordlines o n + o := by
  by_cases ho : o = 0
  · subst ho
    simp
  · have h := wordlines_add o n o
    have hlt : n % 2 ^ 16 % o < o := Nat.mod_lt _ (by omega)
    have hmul : o * wordlines o (n + o) < o * (wordlines o n + 2) := by
      rw [Nat.mul_add]
      omega
    have hle := Nat.lt_of_mul_lt_mul_left hmul
    rw [← Nat.mul_succ]
    exact Nat.mul_le_mul_left o (by omega)

/-- The pages before page `pg` whose bytes are not released. -/
def heldPages (o pg : Nat) : Nat := pg - o * wordlines o pg

/-- The page of a write pointer after `advance_write_pointer`: the next one, the first one of the word
line on another chip, or the first one of another line. -/
def NextPg (o pg pg' : Nat) : Prop :=
  pg' = pg + 1 ∨ (o ≤ pg + 1 ∧ pg' = pg + 1 - o) ∨ pg' = 0

/-- A page that is written is held, or a whole one-shot page is released. -/
theorem heldPages_next {o pg pg' : Nat} (h : NextPg o pg pg') :
    heldPages o pg' + (if EndsWordline o pg then o else 0) ≤ heldPages o pg + 1 := by
  have hle := wordlines_mul_le o (pg + 1)
  have hsucc : o * wordlines o (pg + 1) = o * wordlines o pg + if EndsWordline o pg then o else 0 := by
    rw [wordlines_succ, Nat.mul_add]
    split <;> simp
  have hheld : heldPages o pg' + o * wordlines o (pg + 1) ≤ pg + 1 := by
    unfold heldPages
    obtain rfl | ⟨ho, rfl⟩ | rfl := h
    · omega
    · have hone := wordlines_wordline o (pg + 1 - o)
      have hmul := wordlines_mul_le o (pg + 1 - o)
      rw [Nat.sub_add_cancel ho] at hone
      omega
    · omega
  unfold heldPages at hheld ⊢
  omega

/-! ## The user write pointer -/

section Frame

variable {f f' : ConvFtl}

/-- The geometry and the user write pointer are as before. -/
structure KeepsWp (f f' : ConvFtl) : Prop where
  sp : f'.sp = f.sp
  wp : f'.wp = f.wp

theorem KeepsWp.refl (f : ConvFtl) : KeepsWp f f := ⟨rfl, rfl⟩

theorem KeepsWp.trans {f'' : ConvFtl} (h : KeepsWp f f') (h' : KeepsWp f' f'') : KeepsWp f f'' :=
  ⟨h'.sp.trans h.sp, h'.wp.trans h.wp⟩

theorem ConvFtl.issue_keepsWp (cmd : NandCmd) : KeepsWp f (f.issue cmd) := by
  unfold ConvFtl.issue
  split
  · exact ⟨rfl, rfl⟩
  · exact .refl f

theorem setMaptblEnt_keepsWp (lpn : Nat) (ppa : Ppa) : Partial (setMaptblEnt f lpn ppa) (KeepsWp f) :=
  Partial.ensure.bind fun _ _ => .ret ⟨rfl, rfl⟩

theorem setRmapEnt_keepsWp (lpn : Nat) (ppa : Ppa) : Partial (setRmapEnt f lpn ppa) (KeepsWp f) :=
  Partial.bind (Q := fun _ => True) (fun _ _ => trivial) fun _ _ => .ret ⟨rfl, rfl⟩

theorem markPageInvalid_keepsWp (ppa : Ppa) : Partial (markPageInvalid f ppa) (KeepsWp f) := by
  unfold markPageInvalid
  refine Partial.ensure.bind fun _ _ => Partial.ensure.bind fun _ _ => ?_
  refine Partial.ensure.bind fun _ _ => Partial.ensure.bind fun _ _ => ?_
  exact Partial.bind (Q := fun _ => True) (fun _ _ => trivial) fun _ _ => .ret ⟨rfl, rfl⟩

theorem markPageValid_keepsWp (ppa : Ppa) : Partial (markPageValid f ppa) (KeepsWp f) := by
  unfold markPageValid
  refine Partial.ensure.bind fun _ _ => Partial.ensure.bind fun _ _ => ?_
  exact Partial.ensure.bind fun _ _ => Partial.ensure.bind fun _ _ => .ret ⟨rfl, rfl⟩

theorem markBlockFree_keepsWp (ppa : Ppa) : Partial (markBlockFree f ppa) (KeepsWp f) := by
  unfold markBlockFree
  refine Partial.ensure.bind fun _ _ => ?_
  refine Partial.bind (Q := fun _ => True) (fun _ _ => trivial) fun _ _ => ?_
  exact Partial.ensure.bind fun _ _ => .ret ⟨rfl, rfl⟩

theorem retireLine_keepsWp (line : Nat) :
    Partial (retireLine f line) fun f' => f'.sp = f.sp ∧ ∀ io, f'.getWp io = f.getWp io := by
  unfold retireLine
  have hlm (lm : LineMgmt) : ({ f with lm } : ConvFtl).sp = f.sp ∧
      ∀ io, ({ f with lm } : ConvFtl).getWp io = f.getWp io := ⟨rfl, fun io => by cases io <;> rfl⟩
  dsimp only
  split
  · exact Partial.ensure.bind fun _ _ => .ret (hlm _)
  · exact Partial.ensure.bind fun _ _ => Partial.ensure.bind fun _ _ => .ret (hlm _)

/-- What `advance_write_pointer` does to the write pointers. -/
structure MovesWp (io : IoType) (f f' : ConvFtl) : Prop where
  sp : f'.sp = f.sp
  next : NextPg f.sp.pgsPerOneshotpg (f.getWp io).pg (f'.getWp io).pg
  other : ∀ io' ≠ io, f'.getWp io' = f.getWp io'

theorem MovesWp.setWp {io : IoType} {wp : WritePointer}
    (h : NextPg f.sp.pgsPerOneshotpg (f.getWp io).pg wp.pg) : MovesWp io f (f.setWp wp io) :=
  ⟨(setWp_eq f wp io).1, by rwa [getWp_setWp_self], fun _ hne => getWp_setWp_of_ne f wp hne⟩

theorem nextLine_movesWp (io : IoType) : Partial (nextLine f io) (MovesWp io f) := by
  unfold nextLine
  refine (retireLine_keepsWp _).bind fun f₁ h₁ => Partial.ensure.bind fun _ _ => ?_
  split
  · exact .error
  rename_i line lm _
  refine Partial.ensure.bind fun _ _ => Partial.ensure.bind fun _ _ => .ret ⟨?_, ?_, ?_⟩
  · rw [(setWp_eq _ _ io).1]
    exact h₁.1
  · rw [getWp_setWp_self]
    exact .inr (.inr rfl)
  · intro io' hne
    rw [getWp_setWp_of_ne _ _ hne, ← h₁.2 io']
    cases io' <;> rfl

theorem advanceWritePointer_movesWp (io : IoType) : Partial (advanceWritePointer f io) (MovesWp io f) := by
  unfold advanceWritePointer
  dsimp only
  refine Partial.ensure.bind fun _ _ => ?_
  split
  · exact .ret (.setWp (.inl rfl))
  rename_i hend
  have ho : f.sp.pgsPerOneshotpg ≤ (f.getWp io).pg + 1 :=
    Nat.le_of_dvd (Nat.succ_pos _) (Nat.dvd_of_mod_eq_zero (not_not.mp hend))
  refine Partial.ensure.bind fun _ _ => ?_
  split
  · exact .ret (.setWp (.inr (.inl ⟨ho, rfl⟩)))
  refine Partial.ensure.bind fun _ _ => ?_
  split
  · exact .ret (.setWp (.inr (.inl ⟨ho, rfl⟩)))
  split
  · exact .ret (.setWp (.inl (Nat.sub_add_cancel ho)))
  · exact nextLine_movesWp io

/-! ### Garbage collection -/

theorem gcWritePage_keepsWp (ppa : Ppa) : Partial (gcWritePage f ppa) (KeepsWp f) := by
  unfold gcWritePage
  refine Partial.bind (Q := fun _ => True) (fun _ _ => trivial) fun lpn _ => ?_
  refine Partial.ensure.bind fun _ _ => ?_
  refine Partial.bind (Q := fun _ => True) (fun _ _ => trivial) fun newPpa _ => ?_
  refine (setMaptblEnt_keepsWp lpn newPpa).bind fun f₁ h₁ => ?_
  refine ((setRmapEnt_keepsWp lpn newPpa).mono fun _ => h₁.trans).bind fun f₂ h₂ => ?_
  refine ((markPageValid_keepsWp newPpa).mono fun _ => h₂.trans).bind fun f₃ h₃ => ?_
  refine (advanceWritePointer_movesWp .gcIo).bind fun f₄ h₄ => ?_
  have h₄ : KeepsWp f f₄ := h₃.trans ⟨h₄.sp, h₄.other .userIo (by decide)⟩
  split <;> exact .ret (h₄.trans (f₄.issue_keepsWp _))

theorem cleanOneFlashpg_keepsWp (ppa : Ppa) : Partial (cleanOneFlashpg f ppa) (KeepsWp f) := by
  unfold cleanOneFlashpg
  refine Partial.bind (Q := fun _ => True) (fun _ _ => trivial) fun cnt _ => ?_
  split
  · exact .ret (.refl f)
  refine Partial.forRange (I := fun _ => KeepsWp f) (f.issue_keepsWp _) fun i _ f₁ h₁ => ?_
  split
  · exact (gcWritePage_keepsWp _).mono fun _ => h₁.trans
  · exact .ret h₁

theorem cleanOneBlockPg_keepsWp (line flashpg ch lun : Nat) :
    Partial (cleanOneBlockPg f line flashpg ch lun) (KeepsWp f) := by
  unfold cleanOneBlockPg
  refine (cleanOneFlashpg_keepsWp _).bind fun f₁ h₁ => ?_
  split
  · refine ((markBlockFree_keepsWp _).mono fun _ => h₁.trans).bind fun f₂ h₂ => ?_
    exact .ret (h₂.trans (f₂.issue_keepsWp _))
  · exact .ret h₁

theorem doGc_keepsWp (force : Bool) : Partial (doGc f force) (KeepsWp f) := by
  unfold doGc
  cases hv : selectVictimLine f force with
  | none => exact .ret (.refl f)
  | some r =>
    obtain ⟨victim, f₁⟩ := r
    have h₁ : KeepsWp f f₁ := by
      unfold selectVictimLine at hv
      split at hv
      · cases hv
      split at hv
      · cases hv
      · cases hv
        exact ⟨rfl, rfl⟩
    dsimp only
    refine Partial.bind (Q := KeepsWp f) ?_ fun f₂ h₂ => .ret (h₂.trans ⟨rfl, rfl⟩)
    refine Partial.forRange (I := fun _ => KeepsWp f) (h₁.trans ⟨rfl, rfl⟩) fun flashpg _ f₂ h₂ => ?_
    refine Partial.forRange (I := fun _ => KeepsWp f) h₂ fun ch _ f₃ h₃ => ?_
    refine Partial.forRange (I := fun _ => KeepsWp f) h₃ fun lun _ f₄ h₄ => ?_
    exact (cleanOneBlockPg_keepsWp _ _ _ _).mono fun _ => h₄.trans

theorem checkAndRefillWriteCredit_keepsWp : Partial (checkAndRefillWriteCredit f) (KeepsWp f) := by
  unfold checkAndRefillWriteCredit foregroundGc
  split
  · refine Partial.bind (Q := KeepsWp f) ?_ fun f₁ h₁ => .ret (h₁.trans ⟨rfl, rfl⟩)
    split
    · exact doGc_keepsWp true
    · exact .ret (.refl f)
  · exact .ret (.refl f)

theorem consumeWriteCredit_keepsWp : KeepsWp f (consumeWriteCredit f) := by
  unfold consumeWriteCredit
  generalize dec32 f.wfc.writeCredits = credits
  exact ⟨rfl, rfl⟩

theorem invalidateOldPage_keepsWp (localLpn : Nat) :
    Partial (invalidateOldPage f localLpn) (KeepsWp f) := by
  unfold invalidateOldPage
  split
  · refine (markPageInvalid_keepsWp _).bind fun f₁ h₁ => ?_
    exact (setRmapEnt_keepsWp _ _).mono fun _ => h₁.trans
  · exact .ret (.refl f)

/-- The page of a write is the one at the user write pointer, which moves on. -/
structure TakesPage (f : ConvFtl) (ppa : Ppa) (f' : ConvFtl) : Prop where
  sp : f'.sp = f.sp
  next : NextPg f.sp.pgsPerOneshotpg f.wp.pg f'.wp.pg
  pg : ppa.pg = f.wp.pg % 2 ^ 16

theorem TakesPage.lastPgInWordline_iff {ppa : Ppa} (h : TakesPage f ppa f') :
    lastPgInWordline f' ppa = true ↔ EndsWordline f.sp.pgsPerOneshotpg f.wp.pg := by
  unfold lastPgInWordline EndsWordline
  rw [h.sp, h.pg, beq_iff_eq]

theorem convWritePage_takesPage (localLpn : Nat) :
    Partial (convWritePage f localLpn) fun r => TakesPage f r.1 r.2 := by
  rw [convWritePage_eq]
  refine (invalidateOldPage_keepsWp localLpn).bind fun f₁ h₁ => ?_
  unfold programPage
  refine Partial.bind (Q := fun ppa : Ppa => ppa.pg = f.wp.pg % 2 ^ 16) ?_ fun ppa hppa => ?_
  · unfold getNewPage
    refine Partial.ensure.bind fun _ _ => .ret ?_
    rw [← h₁.wp]
    rfl
  refine ((setMaptblEnt_keepsWp _ ppa).mono fun _ => h₁.trans).bind fun f₂ h₂ => ?_
  refine ((setRmapEnt_keepsWp _ ppa).mono fun _ => h₂.trans).bind fun f₃ h₃ => ?_
  refine ((markPageValid_keepsWp ppa).mono fun _ => h₃.trans).bind fun f₄ h₄ => ?_
  refine (advanceWritePointer_movesWp .userIo).bind fun f₅ h₅ => .ret ⟨h₅.sp.trans h₄.sp, ?_, hppa⟩
  have hnext := h₅.next
  rw [h₄.sp, show f₄.getWp .userIo = f.wp from h₄.wp] at hnext
  exact hnext

end Frame

/-! ## The ledger -/

section Ledger

variable {τ : Type} {sp : SsdParams} {nrParts : Nat}

/-- The bytes that internal operations release. -/
def releases (ops : List InternalOp) : Nat := (ops.map (·.buffsToRelease)).sum

@[simp] theorem releases_append (ops ops' : List InternalOp) :
    releases (ops ++ ops') = releases ops + releases ops' := by simp [releases]

theorem releases_eraseIdx {ops : List InternalOp} {i : Nat} {op : InternalOp} (h : ops[i]? = some op) :
    releases (ops.eraseIdx i) + op.buffsToRelease = releases ops := by
  induction ops generalizing i with
  | nil => cases h
  | cons op' ops ih =>
    cases i with
    | zero =>
      cases h
      simp [releases, Nat.add_comm]
    | succ i =>
      have ih := ih h
      simp only [releases, List.eraseIdx_cons_succ, List.map_cons, List.sum_cons] at ih ⊢
      omega

/-- The bytes of the word lines that the partitions have begun. -/
def heldBytes (sp : SsdParams) (nrParts : Nat) (ftls : Nat → ConvFtl) : Nat :=
  ∑ p ∈ Finset.range nrParts, sp.pgsz * heldPages sp.pgsPerOneshotpg (ftls p).wp.pg

/-- The bytes that are left in the write buffer, pending and held. -/
def ledger (sp : SsdParams) (s : ConvDevice τ) : Nat :=
  s.ns.writeBuffer.remaining + releases s.pending + heldBytes sp s.ns.nrParts s.ns.ftls

/-- One page of a write adds the bytes of a page. -/
theorem convWriteLpn_ledger (B : Nat → PerfModel τ) (hparts : 0 < nrParts) {sqId stime : Nat}
    {s : WriteLoop τ} (hsp : ∀ p < nrParts, (s.ftls p).sp = sp) (lpn : Nat) :
    Partial (convWriteLpn B nrParts sqId stime s lpn) fun s' => (∀ p < nrParts, (s'.ftls p).sp = sp) ∧
      releases s'.ops + heldBytes sp nrParts s'.ftls ≤
        releases s.ops + heldBytes sp nrParts s.ftls + sp.pgsz := by
  have hp : lpn % nrParts < nrParts := Nat.mod_lt _ hparts
  refine (convWriteLpn_spec B (.ofPartial (convWritePage_takesPage (lpn / nrParts)))
    fun ppa f (hf : TakesPage _ _ _) => .ofPartial ?_).post
  have hspf : f.sp = sp := hf.sp.trans (hsp _ hp)
  refine checkAndRefillWriteCredit_keepsWp.mono fun f' hf' s' hs' => ?_
  have hf' := consumeWriteCredit_keepsWp.trans hf'
  refine ⟨fun p hlt => ?_, ?_⟩
  · rw [hs'.ftls]
    by_cases hpe : p = lpn % nrParts
    · subst hpe
      rw [update_self]
      exact hf'.sp.trans hspf
    · rw [update_of_ne hpe]
      exact hsp p hlt
  · have hheld := heldPages_next hf.next
    have hsum := sum_update (Finset.range nrParts) s.ftls
      (fun f => sp.pgsz * heldPages sp.pgsPerOneshotpg f.wp.pg) (Finset.mem_range.mpr hp)
      { f' with issued := [] }
    rw [← hs'.ftls] at hsum
    have hops : releases s'.ops = releases s.ops +
        if EndsWordline sp.pgsPerOneshotpg (s.ftls (lpn % nrParts)).wp.pg then
          sp.pgsPerOneshotpg * sp.pgsz else 0 := by
      unfold releases
      rw [hs'.ops, List.sum_append, hspf, ← hsp _ hp]
      congr 1
      by_cases hend : lastPgInWordline f ppa = true
      · rw [if_pos hend, if_pos (hf.lastPgInWordline_iff.mp hend)]
        simp
      · rw [if_neg hend, if_neg fun h => hend (hf.lastPgInWordline_iff.mpr h)]
        rfl
    rw [hsp _ hp, ← hf'.wp] at hheld
    have hmul := Nat.mul_le_mul_left sp.pgsz hheld
    rw [Nat.mul_add, Nat.mul_add, Nat.mul_one] at hmul
    unfold heldBytes
    dsimp only at hsum
    split at hmul
    · rw [if_pos ‹_›, Nat.mul_comm] at hops
      omega
    · rw [if_neg ‹_›] at hops
      omega

/-- The command covers whole pages. -/
def WholePages (cmd : RwCommand) : Prop := cmd.slba % 8 = 0 ∧ cmd.nrLbas % 8 = 0

/-- A write that is accepted covers whole pages. -/
def FillsPages (s : ConvDevice τ) : ConvEvent → Prop
  | .command req => req.cmd.opcode = .write → Accepts s.ns req → WholePages req.cmd
  | .complete _ => True

instance (s : ConvDevice τ) : DecidablePred (FillsPages s)
  | .command req => inferInstanceAs (Decidable (req.cmd.opcode = .write → Accepts s.ns req →
      req.cmd.slba % 8 = 0 ∧ req.cmd.nrLbas % 8 = 0))
  | .complete _ => .isTrue trivial

/-- No more bytes than the size of the buffer are left, pending and held. -/
structure ConvLedgerInv (sp : SsdParams) (s : ConvDevice τ) : Prop where
  parts : 0 < s.ns.nrParts
  sp_eq : ∀ p < s.ns.nrParts, (s.ns.ftls p).sp = sp
  le : ledger sp s ≤ s.ns.writeBuffer.size

variable (hs : sp.Sectors) {s : ConvDevice τ} (h : ConvLedgerInv sp s)

include hs h

/-- The pages of a command that covers whole pages. -/
theorem ConvLedgerInv.pages_le {req : RwRequest} (hwhole : WholePages req.cmd) :
    (endLpn s.ns req + 1 - startLpn s.ns req) * sp.pgsz ≤ req.cmd.nrLbas * 512 := by
  obtain ⟨h1, h2⟩ := hwhole
  have hpos := nrLbas_pos req.cmd
  unfold endLpn startLpn u64
  rw [h.sp_eq 0 h.parts, hs.secsPerPg, hs.pgsz]
  omega

theorem ConvLedgerInv.write (B : Nat → PerfModel τ) {req : RwRequest}
    (hwhole : Accepts s.ns req → WholePages req.cmd) :
    Partial (convWrite B s.ns req) fun o =>
      ConvLedgerInv sp { ns := o.ftl, pending := s.pending ++ o.ops } := by
  have hloop (hacc : Accepts s.ns req) (stime : Nat) (l : WriteLoop τ) (hftls : l.ftls = s.ns.ftls)
      (hops : l.ops = []) :
      Partial (forRange (endLpn s.ns req + 1 - startLpn s.ns req) l fun l i =>
        convWriteLpn B s.ns.nrParts req.sqId stime l (startLpn s.ns req + i)) fun l' =>
        (∀ p < s.ns.nrParts, (l'.ftls p).sp = sp) ∧
          releases l'.ops + heldBytes sp s.ns.nrParts l'.ftls ≤
            heldBytes sp s.ns.nrParts s.ns.ftls + req.cmd.nrLbas * 512 := by
    -- each turn adds the bytes of one page
    have hrun := Partial.forRange (n := endLpn s.ns req + 1 - startLpn s.ns req) (s := l)
      (f := fun l i => convWriteLpn B s.ns.nrParts req.sqId stime l (startLpn s.ns req + i))
      (I := fun i l' => (∀ p < s.ns.nrParts, (l'.ftls p).sp = sp) ∧
        releases l'.ops + heldBytes sp s.ns.nrParts l'.ftls ≤
          heldBytes sp s.ns.nrParts s.ns.ftls + i * sp.pgsz) ?_ ?_
    · refine hrun.mono fun l' hl' => ⟨hl'.1, hl'.2.trans ?_⟩
      exact Nat.add_le_add_left (h.pages_le hs (hwhole hacc)) _
    · rw [hftls, hops]
      exact ⟨h.sp_eq, by simp [releases]⟩
    · intro i _ l' hl'
      refine (convWriteLpn_ledger B h.parts hl'.1 _).mono fun l'' hl'' => ⟨hl''.1, ?_⟩
      have h1 := hl'.2
      have h2 := hl''.2
      rw [Nat.add_mul, Nat.one_mul]
      omega
  refine (convWrite_spec B False.elim fun hacc stime l hftls hops =>
    .ofPartial (hloop hacc stime l hftls hops)).post.mono fun o ho => ?_
  have hle := h.le
  unfold ledger at hle
  cases ho with
  | refused _ =>
    refine ⟨h.parts, h.sp_eq, ?_⟩
    unfold ledger
    rwa [List.append_nil]
  | done hacc l hl =>
    refine ⟨h.parts, hl.1, ?_⟩
    have hroom := hacc.room
    have hl := hl.2
    unfold ledger
    rw [releases_append]
    dsimp only
    omega

theorem ConvLedgerInv.step (B : Nat → PerfModel τ) {event : ConvEvent} (hfills : FillsPages s event) :
    Partial (s.step B event) (ConvLedgerInv sp) := by
  cases event with
  | command req =>
    unfold ConvDevice.step
    refine Partial.bind (convProcNvmeIoCmd_spec B
      (fun hw => .ofPartial (h.write hs B (hfills hw))) fun o _ hops hftl => ?_).post
      fun o ho => .ret ho
    obtain ⟨perf, hftl⟩ := hftl
    have hle := h.le
    unfold ledger at hle
    rw [hops, hftl]
    refine ⟨h.parts, h.sp_eq, ?_⟩
    unfold ledger
    rwa [List.append_nil]
  | complete i =>
    unfold ConvDevice.step
    dsimp only
    split
    · rename_i op hop
      refine .ret ⟨h.parts, h.sp_eq, ?_⟩
      have hle := h.le
      have hrel := releases_eraseIdx hop
      have hmod : (bufferRelease s.ns.writeBuffer op.buffsToRelease).remaining ≤
          s.ns.writeBuffer.remaining + op.buffsToRelease := Nat.mod_le _ _
      unfold ledger at hle ⊢
      dsimp only at hle ⊢
      rw [show (bufferRelease s.ns.writeBuffer op.buffsToRelease).size = s.ns.writeBuffer.size from rfl]
      omega
    · exact .ret h

end Ledger

/-- The geometry and the write pointers of a fresh namespace. -/
theorem convInitFtl_wp {cp : ConvParams} {sp : SsdParams} {raw : ConvFtl} :
    Partial (convInitFtl cp sp raw) fun f => f.sp = sp ∧ f.wp.pg = 0 := by
  unfold convInitFtl
  refine Partial.bind (Q := fun _ => True) (fun _ _ => trivial) fun lm _ => ?_
  dsimp only
  refine Partial.bind (Q := fun f => f.sp = sp ∧ f.wp.pg = 0) ?_ fun f hf => ?_
  · unfold prepareWritePointer
    split
    · exact .error
    · exact .ret ⟨rfl, rfl⟩
  refine Partial.bind (Q := fun f => f.sp = sp ∧ f.wp.pg = 0) ?_ fun f hf => .ret hf
  unfold prepareWritePointer
  split
  · exact .error
  · exact .ret hf

theorem convLedgerInv_init {τ : Type} {cfg : SsdConfig} {pbaPcent nrParts size : Nat}
    (hparts : 0 < nrParts) {raw : Nat → ConvFtl} {perf : τ} {ns : ConvNs τ}
    (hns : convInitNamespace cfg pbaPcent nrParts size raw perf = .ok ns) :
    ∃ sp : SsdParams, sp.Sectors ∧ ConvLedgerInv sp { ns } := by
  unfold convInitNamespace at hns
  obtain ⟨sp, hsp, hns⟩ := bind_ok.mp hns
  obtain ⟨ftls, hftls, hns⟩ := bind_ok.mp hns
  have hinit := Partial.forRange (n := nrParts) (s := raw)
    (f := fun ftls i => do
      let f ← convInitFtl (convInitParams pbaPcent) sp (ftls i)
      pure (update ftls i f))
    (I := fun i ftls => ∀ p < i, (ftls p).sp = sp ∧ (ftls p).wp.pg = 0) (fun p hp => by omega)
    (fun i _ ftls hI => convInitFtl_wp.bind fun f hf => .ret fun p hp => ?_) ftls hftls
  · cases hns
    refine ⟨sp, ssdInitParams_sectors hsp, hparts, fun p hp => (hinit p hp).1, ?_⟩
    have hzero : heldBytes sp nrParts ftls = 0 := by
      refine Finset.sum_eq_zero fun p hp => ?_
      rw [(hinit p (Finset.mem_range.mp hp)).2]
      simp [heldPages]
    unfold ledger
    dsimp only
    rw [hzero]
    exact Nat.le_refl _
  · by_cases hpi : p = i
    · subst hpi
      rwa [update_self]
    · rw [update_of_ne hpi]
      exact hI p (by omega)

/-- A namespace of any configuration. In every run of commands and completions of internal operations,
in any order, in which every write that is accepted covers whole pages, the write buffer never has more
than its size, also after the releases that are still pending. -/
theorem conv_buffer_accounting {τ : Type} (B : Nat → PerfModel τ) {cfg : SsdConfig}
    {pbaPcent nrParts size : Nat} (hparts : 0 < nrParts) {raw : Nat → ConvFtl} {perf : τ} {ns : ConvNs τ}
    (hns : convInitNamespace cfg pbaPcent nrParts size raw perf = .ok ns) (events : List ConvEvent)
    (hfills : Always (ConvDevice.step B) FillsPages { ns } events) :
    Partial (events.foldlM (ConvDevice.step B) { ns }) fun s =>
      s.ns.writeBuffer.remaining + releases s.pending ≤ s.ns.writeBuffer.size := by
  obtain ⟨sp, hs, hinit⟩ := convLedgerInv_init hparts hns
  refine (Partial.always hinit hfills fun s h event _ hP => h.step hs B hP).mono fun s h => ?_
  exact (Nat.le_add_right _ _).trans h.le

/-- The configuration `SAMSUNG_970PRO`, with 8 blocks for each plane in place of 8192. -/
def SsdConfig.samsung970Pro : SsdConfig :=
  { nandChannels := 8, lunsPerNandCh := 2, plnsPerLun := 1, flashPageSize := 32 * 1024
    oneshotPageSize := 32 * 1024, blksPerPln := 8, blkSize := 0, cellMode := 2
    writeUnitSize := 512, fw4kbReadLatency := 21500, fwReadLatency := 30490, globalWbSize := 2 ^ 20
    writeEarlyCompletion := true }

/-- The memory of an FTL before its initialization. -/
def ConvFtl.blank : ConvFtl :=
  { sp := { secsz := 0, secsPerPg := 0, pgsz := 0, pgsPerFlashpg := 0, flashpgsPerBlk := 0
            pgsPerOneshotpg := 0, oneshotpgsPerBlk := 0, pgsPerBlk := 0, blksPerPl := 0, plsPerLun := 0
            lunsPerCh := 0, nchs := 0, cellMode := 0, writeUnitSize := 0, writeEarlyCompletion := false
            fw4kbRdLat := 0, fwRdLat := 0, pgsPerPl := 0, pgsPerLun := 0, pgsPerCh := 0
            ttPgs := 0, blksPerLun := 0, pgsPerLine := 0, blksPerLine := 0, ttLines := 0, ttLuns := 0
            writeBufferSize := 0 }
    cp := { gcThresLines := 0, gcThresLinesHigh := 0, enableGcDelay := false, pbaPcent := 0 }
    pages := fun _ => { status := .free, nsecs := 0 }
    blocks := fun _ => { npgs := 0, ipc := 0, vpc := 0 }
    maptbl := fun _ => unmappedPpa
    rmap := fun _ => 0
    wp := { curline := 0, blk := 0 }
    gcWp := { curline := 0, blk := 0 }
    lm := { lines := fun _ => { ipc := 0, vpc := 0 }, freeLineList := [], victimLinePq := .init 0 fun _ => 0
            fullLineList := [], ttLines := 0, freeLineCnt := 0, victimLineCnt := 0, fullLineCnt := 0 }
    wfc := { writeCredits := 0, creditsToRefill := 0 } }

/-- A write of `n + 1` blocks from `slba` on. -/
def convWriteBlocks (slba n : Nat) : ConvEvent :=
  .command { cmd := { opcode := .write, slba, length := n } }

/-- A fresh namespace of four partitions. -/
def ConvNs.samsung970Pro : Except Bug (ConvNs Unit) :=
  convInitNamespace .samsung970Pro 107 4 (2 ^ 22) (fun _ => .blank) ()

/-- A write of 32 pages, which ends a word line of each partition, and two of its releases. -/
theorem conv_buffer_accounting_samsung970Pro : Total (do
    let ns ← ConvNs.samsung970Pro
    [convWriteBlocks 0 255, .complete 2, .complete 0].foldlM (ConvDevice.step fun _ => .instant) { ns })
    fun s => s.ns.writeBuffer.remaining + releases s.pending ≤ s.ns.writeBuffer.size := by
  have hrun : Total ConvNs.samsung970Pro fun ns =>
      Always (ConvDevice.step fun _ => .instant) FillsPages { ns }
        [convWriteBlocks 0 255, .complete 2, .complete 0] ∧
      Total ([convWriteBlocks 0 255, .complete 2, .complete 0].foldlM
        (ConvDevice.step fun _ => .instant) { ns }) fun s => s.pending.length = 2 := by decide +kernel
  obtain ⟨ns, hns, hfills, s, hs, -⟩ := hrun
  rw [hns]
  exact ⟨s, hs, conv_buffer_accounting (fun _ => .instant) (by decide) hns _ hfills s hs⟩

/-- Eight writes of block 0: each fills a page of the word line, which is released with its 8 pages. -/
theorem conv_buffer_overreleased : Total (do
    let ns ← ConvNs.samsung970Pro
    (List.replicate 8 (convWriteBlocks 0 0) ++ [ConvEvent.complete 0]).foldlM
      (ConvDevice.step fun _ => .instant) { ns })
    fun s => ¬ s.ns.writeBuffer.remaining ≤ s.ns.writeBuffer.size := by decide +kernel

end Nvmev
