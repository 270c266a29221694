import Mathlib.Algebra.BigOperators.Group.Finset.Sigma
import Mathlib.Algebra.Order.BigOperators.Group.Finset
import NvmeVirt.Conv.Collect

/-!
# Write credits

A page of a write takes one page of the `space` and one write credit; a garbage collection of a victim
line with `r` invalid pages gives `r` pages and `r` credits. With the credits gone and two free lines or
fewer a victim line exists, as the logical pages do not fill the other lines. So the space stays more
than two lines ahead of the credits, and the free lines do not run out.

* `Idle.doGc`, `Idle.checkAndRefillWriteCredit`: what `do_gc` and the refill keep.
* `Idle.convWritePage`: one page of a write.
-/

namespace Nvmev

open CInt Function Outcome Tally

variable {S M : Prop} {f : ConvFtl} {fill : IoType → Nat} {v m : Nat} {written : Nat → Prop}
  {cls : Nat → LineClass}

/-! ## Garbage collection -/

/-- What `do_gc` leaves: nothing happens without a victim line; else the space and the credits to
refill are up by the invalid pages of the victim line. -/
structure Collected (M : Prop) (m : Nat) (written : Nat → Prop) (f : ConvFtl) (cls : Nat → LineClass)
    (fill : IoType → Nat) (f' : ConvFtl) (cls' : Nat → LineClass) (fill' : IoType → Nat) : Prop where
  idle : Idle M m written f' cls' fill'
  sp : f'.sp = f.sp
  cp : f'.cp = f.cp
  writeCredits : f'.wfc.writeCredits = f.wfc.writeCredits
  outcome : (f'.wfc = f.wfc ∧ space f' fill' = space f fill ∧ ∀ l < f.sp.blksPerPl, cls l ≠ .victim) ∨
    (0 < f'.wfc.creditsToRefill ∧ f'.wfc.creditsToRefill ≤ f.sp.pgsPerLine ∧
      space f' fill' = space f fill + f'.wfc.creditsToRefill)

/-- The pages of a victim line are valid or invalid. -/
theorem Idle.victim_counts (h : Idle M m written f cls fill) (hv : v < f.sp.blksPerPl)
    (hcls : cls v = .victim) :
    lineCount f.sp f.pages .valid v + (f.lm.lines v).ipc = f.sp.pgsPerLine := by
  rw [h.ready.acc.counts.ipc v hv (h.quiet v hv)]
  refine h.ready.acc.geometry.lineCount_add fun ch hch lun hlun pg hpg => ?_
  rw [ne_eq, h.ready.acc.fillInv v hv ch hch lun hlun pg hpg, hcls]
  exact id

theorem Idle.doGc (hSM : S → M) (hsmall : S → f.sp.pgsPerLine < 2 ^ 31)
    (hroom : S → 2 * f.sp.pgsPerLine < space f fill) (h : Idle M m written f cls fill) :
    Spec S (doGc f true) fun f' => ∃ cls' fill', Collected M m written f cls fill f' cls' fill' := by
  have hlists := h.ready.acc.lists
  cases hpeek : f.lm.victimLinePq.peek with
  | none =>
    unfold Nvmev.doGc selectVictimLine
    rw [hpeek]
    refine .ret ⟨cls, fill, h, rfl, rfl, rfl, .inl ⟨rfl, rfl, fun l hl hc => ?_⟩⟩
    have hpos := (hlists.mem_victim l).mpr ⟨hl, hc⟩
    have hlt := (hlists.queue.d_pos hpos).1
    rw [(hlists.queue.peek (by omega)).1] at hpeek
    cases hpeek
  | some v =>
    obtain ⟨hv, hcls, hcol⟩ := h.victim hpeek
    have hipc := h.ready.acc.counts.victim v hv hcls
    have hsum := h.victim_counts hv hcls
    rw [doGc_eq hpeek]
    refine ((Collecting.visits hSM hcol.ready.acc.geometry hv hsmall fun hS => ?_).loops
      ⟨_, _, hcol⟩).bind ?_
    · have hroom := hroom hS
      change f.sp.pgsPerLine + 1 + lineCount f.sp f.pages .valid v < space f fill
      omega
    rintro f₁ ⟨cls₁, fill₁, h₁⟩
    have hidle := h₁.markLineFree
    have hspace := space_markLineFree f₁ v fill₁
    have hall := copied_all hcol.ready.acc.geometry v
    have hsp := h₁.space
    rw [hall] at hsp
    change space f₁ fill₁ + lineCount f.sp f.pages .valid v = space f fill at hsp
    have hP : f₁.sp.pgsPerLine = f.sp.pgsPerLine := congrArg _ h₁.sp
    have hcredits : f₁.wfc.writeCredits = f.wfc.writeCredits := by
      rw [h₁.wfc]
      rfl
    have hrefill : f₁.wfc.creditsToRefill = (f.lm.lines v).ipc := by
      rw [h₁.wfc]
      rfl
    refine .ret ⟨_, fill₁, hidle, h₁.sp, h₁.cp, hcredits, .inr ?_⟩
    change 0 < f₁.wfc.creditsToRefill ∧ f₁.wfc.creditsToRefill ≤ f.sp.pgsPerLine ∧
      space (markLineFree f₁ v) fill₁ = space f fill + f₁.wfc.creditsToRefill
    rw [hrefill]
    exact ⟨hipc, by omega, by omega⟩

/-! ## Victim lines -/

/-- The valid pages of a line have different logical pages. -/
theorem Idle.sum_lineCount_le (h : Idle M m written f cls fill) (hM : M) {n : Nat}
    (hwritten : ∀ l, written l → l < n) :
    ∑ l ∈ Finset.range f.sp.blksPerPl, lineCount f.sp f.pages .valid l ≤ n := by
  have hmap := h.map hM
  have g := h.ready.acc.geometry
  -- the valid pages of all lines
  have hsum : ∑ l ∈ Finset.range f.sp.blksPerPl, lineCount f.sp f.pages .valid l =
      ((Finset.range f.sp.blksPerPl).sigma fun l =>
        (linePages f.sp).filter fun i =>
          ((f.pages (pageAt l i.1 i.2.1 i.2.2)).status == .valid) = true).card := by
    rw [Finset.card_sigma]
    rfl
  have hpage {x : Σ _ : Nat, Nat × Nat × Nat} (hx : x ∈ (Finset.range f.sp.blksPerPl).sigma fun l =>
      (linePages f.sp).filter fun i => ((f.pages (pageAt l i.1 i.2.1 i.2.2)).status == .valid) = true) :
      OnChip f.sp (pageAt x.1 x.2.1 x.2.2.1 x.2.2.2) ∧
        (f.pages (pageAt x.1 x.2.1 x.2.2.1 x.2.2.2)).status = .valid := by
    obtain ⟨hl, hi⟩ := Finset.mem_sigma.mp hx
    obtain ⟨hi, hv⟩ := Finset.mem_filter.mp hi
    obtain ⟨h1, h2, h3⟩ := mem_linePages.mp hi
    exact ⟨pageAt_onChip (Finset.mem_range.mp hl) h1 h2 h3, beq_iff_eq.mp hv⟩
  rw [hsum, ← Finset.card_range n]
  refine Finset.card_le_card_of_injOn
    (fun x => f.rmap (pgidx f.sp (pageAt x.1 x.2.1 x.2.2.1 x.2.2.2))) (fun x hx => ?_) ?_
  · obtain ⟨hon, hv⟩ := hpage hx
    obtain ⟨hlt, -, htbl⟩ := hmap.lpn _ hon hv id
    exact Finset.mem_coe.mpr (Finset.mem_range.mpr (hwritten _ ((hmap.mapped _ hlt id).mp
      (by rw [htbl]; exact hon.mapped))))
  · intro x hx y hy he
    obtain ⟨hon, hv⟩ := hpage hx
    obtain ⟨hon', hv'⟩ := hpage hy
    have h1 := (hmap.lpn _ hon hv id).2.2
    have h2 := (hmap.lpn _ hon' hv' id).2.2
    dsimp only at he
    rw [he, h2] at h1
    obtain ⟨e1, e2, e3, e4⟩ := pageAt_inj h1
    obtain ⟨xl, xc, xu, xp⟩ := x
    obtain ⟨yl, yc, yu, yp⟩ := y
    dsimp only at e1 e2 e3 e4
    rw [e1, e2, e3, e4]

/-- The full lines of `n` lines. -/
def fullLines (n : Nat) (cls : Nat → LineClass) : Finset Nat :=
  (Finset.range n).filter fun l => cls l = .full

theorem mem_fullLines {n l : Nat} : l ∈ fullLines n cls ↔ l < n ∧ cls l = .full := by
  simp [fullLines]

/-- Without victim lines, every line is full, free or the line of a write pointer. -/
theorem Idle.le_fullLines (h : Idle M m written f cls fill)
    (hno : ∀ l < f.sp.blksPerPl, cls l ≠ .victim) :
    f.sp.blksPerPl ≤ (fullLines f.sp.blksPerPl cls).card + (f.lm.freeLineList.length + 2) := by
  have hacc := h.ready.acc
  have hcover : Finset.range f.sp.blksPerPl ⊆ fullLines f.sp.blksPerPl cls ∪
      (f.lm.freeLineList.toFinset ∪ {(f.getWp .userIo).curline, (f.getWp .gcIo).curline}) := by
    intro l hl
    have hlt := Finset.mem_range.mp hl
    simp only [Finset.mem_union, mem_fullLines, List.mem_toFinset, Finset.mem_insert,
      Finset.mem_singleton, hlt, true_and]
    cases hc : cls l with
    | free => exact .inr (.inl ((hacc.lists.mem_free l).mpr ⟨hlt, hc⟩))
    | full => exact .inl rfl
    | victim => exact absurd hc (hno l hlt)
    | user => exact .inr (.inr (.inl ((hacc.wp.current .userIo l hlt).mp hc)))
    | gc => exact .inr (.inr (.inr ((hacc.wp.current .gcIo l hlt).mp hc)))
    | collected => exact absurd hc (h.quiet l hlt)
  have h1 := Finset.card_le_card hcover
  have h2 := Finset.card_union_le (fullLines f.sp.blksPerPl cls) (f.lm.freeLineList.toFinset ∪
    {(f.getWp .userIo).curline, (f.getWp .gcIo).curline})
  have h3 := Finset.card_union_le f.lm.freeLineList.toFinset
    {(f.getWp .userIo).curline, (f.getWp .gcIo).curline}
  have h4 := List.toFinset_card_le f.lm.freeLineList
  have h5 : ({(f.getWp .userIo).curline, (f.getWp .gcIo).curline} : Finset Nat).card ≤ 2 :=
    Finset.card_le_two
  rw [Finset.card_range] at h1
  omega

/-- The pages of the full lines have different logical pages. -/
theorem Idle.fullLines_le (h : Idle M m written f cls fill) (hM : M) {n : Nat}
    (hwritten : ∀ l, written l → l < n) :
    (fullLines f.sp.blksPerPl cls).card * f.sp.pgsPerLine ≤ n := by
  refine le_trans ?_ (h.sum_lineCount_le hM hwritten)
  rw [← Finset.sum_const_nat (s := fullLines f.sp.blksPerPl cls)
    (f := fun l => lineCount f.sp f.pages .valid l)]
  · exact Finset.sum_le_sum_of_subset (Finset.filter_subset _ _)
  · intro l hl
    obtain ⟨hlt, hc⟩ := mem_fullLines.mp hl
    rw [← h.ready.acc.counts.vpc l hlt (h.quiet l hlt)]
    exact h.ready.acc.counts.full l hlt hc

/-- With two free lines or fewer, the logical pages do not fill the other lines. -/
theorem Idle.exists_victim (h : Idle M m written f cls fill) (hM : M) {n : Nat}
    (hwritten : ∀ l, written l → l < n) (hn : n < (f.sp.blksPerPl - 4) * f.sp.pgsPerLine)
    (hfree : f.lm.freeLineList.length ≤ 2) : ∃ l < f.sp.blksPerPl, cls l = .victim := by
  by_contra hno
  have hcard := h.le_fullLines fun l hl hc => hno ⟨l, hl, hc⟩
  have hle := h.fullLines_le hM hwritten
  have hmul : (f.sp.blksPerPl - 4) * f.sp.pgsPerLine ≤
      (fullLines f.sp.blksPerPl cls).card * f.sp.pgsPerLine := Nat.mul_le_mul_right _ (by omega)
  omega

/-! ## Credits -/

/-- The space is two lines and two pages ahead of the write credits. -/
structure Owed (f : ConvFtl) (fill : IoType → Nat) : Prop where
  refill_pos : 0 < f.wfc.creditsToRefill
  refill_le : f.wfc.creditsToRefill ≤ f.sp.pgsPerLine
  credits_le : f.wfc.writeCredits ≤ f.sp.pgsPerLine
  space : 2 * f.sp.pgsPerLine + 2 + f.wfc.writeCredits ≤ space f fill
  thres : f.cp.gcThresLinesHigh = 2

/-- There are credits for the next page. -/
structure Funded (f : ConvFtl) (fill : IoType → Nat) : Prop extends Owed f fill where
  pos : 0 < f.wfc.writeCredits

/-- The credits are not part of what `Idle` says. -/
theorem Idle.setWfc (h : Idle M m written f cls fill) (wfc : WriteFlowControl) :
    Idle M m written { f with wfc } cls fill :=
  ⟨h.ready.congr rfl rfl rfl rfl rfl rfl, h.quiet, fun hM => (h.map hM).congr rfl rfl rfl rfl⟩

theorem Ready.fill_lt {freed : Nat → Nat → Prop} (h : Ready f cls freed fill) (io : IoType) :
    fill io < f.sp.pgsPerLine := by
  rw [← h.place io]
  exact (h.acc.wp.inLine io).place_lt h.acc.geometry

section Refill

variable {n : Nat} (hSM : S → M) (hsmall : S → f.sp.pgsPerLine < 2 ^ 31)
  (hwritten : S → (∀ l, written l → l < n) ∧ n < (f.sp.blksPerPl - 4) * f.sp.pgsPerLine)

include hSM hsmall hwritten

theorem Idle.checkAndRefillWriteCredit (h : Idle M m written f cls fill) (howed : S → Owed f fill) :
    Spec S (checkAndRefillWriteCredit f) fun f' => ∃ cls' fill', Idle M m written f' cls' fill' ∧
      f'.sp = f.sp ∧ f'.cp = f.cp ∧ (S → Funded f' fill') := by
  have hfreeCnt := h.ready.acc.lists.freeLineCnt
  unfold Nvmev.checkAndRefillWriteCredit
  split
  swap
  · rename_i hpos
    exact .ret ⟨cls, fill, h, rfl, rfl, fun hS => ⟨howed hS, Nat.pos_of_ne_zero hpos⟩⟩
  rename_i hzero
  unfold foregroundGc shouldGcHigh
  simp only [decide_eq_true_eq]
  split
  · rename_i hfew
    refine (h.doGc hSM hsmall fun hS => ?_).bind ?_
    · have := (howed hS).space
      omega
    rintro f₁ ⟨cls₁, fill₁, hc⟩
    refine .ret ⟨cls₁, fill₁, hc.idle.setWfc _, hc.sp, hc.cp, fun hS => ?_⟩
    have hw := howed hS
    have := hsmall hS
    obtain ⟨-, -, hno⟩ | ⟨hpos, hle, hspace⟩ := hc.outcome
    · obtain ⟨l, hl, hcls⟩ := h.exists_victim (hSM hS) (hwritten hS).1 (hwritten hS).2 (by
        rw [← hfreeCnt]
        exact hfew.trans (Nat.le_of_eq hw.thres))
      exact absurd hcls (hno l hl)
    · have hcredits : u32 (f₁.wfc.writeCredits + f₁.wfc.creditsToRefill) = f₁.wfc.creditsToRefill := by
        rw [hc.writeCredits, hzero, Nat.zero_add, u32_of_lt (by omega)]
      have hspace₀ := hw.space
      refine ⟨⟨hpos, by rw [hc.sp]; exact hle, ?_, ?_, ?_⟩, ?_⟩
      · change u32 (f₁.wfc.writeCredits + f₁.wfc.creditsToRefill) ≤ f₁.sp.pgsPerLine
        rw [hcredits, hc.sp]
        exact hle
      · change 2 * f₁.sp.pgsPerLine + 2 + u32 (f₁.wfc.writeCredits + f₁.wfc.creditsToRefill) ≤
          Nvmev.space f₁ fill₁
        rw [hcredits, hc.sp]
        omega
      · exact (congrArg _ hc.cp).trans hw.thres
      · change 0 < u32 (f₁.wfc.writeCredits + f₁.wfc.creditsToRefill)
        rw [hcredits]
        exact hpos
  · rename_i hmany
    refine .ret ⟨cls, fill, h.setWfc _, rfl, rfl, fun hS => ?_⟩
    have hw := howed hS
    have := hsmall hS
    have hpos := hw.refill_pos
    have hle := hw.refill_le
    have hcredits : u32 (f.wfc.writeCredits + f.wfc.creditsToRefill) = f.wfc.creditsToRefill := by
      rw [hzero, Nat.zero_add, u32_of_lt (by omega)]
    -- three free lines are ahead of any refill
    have hthree : 3 ≤ f.lm.freeLineList.length := by
      rw [← hfreeCnt]
      rw [hw.thres] at hmany
      omega
    have hspace : 3 * f.sp.pgsPerLine + 2 ≤ Nvmev.space f fill := by
      have hmul := Nat.mul_le_mul_right f.sp.pgsPerLine hthree
      have h1 := h.ready.fill_lt .userIo
      have h2 := h.ready.fill_lt .gcIo
      unfold Nvmev.space
      omega
    refine ⟨⟨hpos, hle, ?_, ?_, hw.thres⟩, ?_⟩
    · change u32 (f.wfc.writeCredits + f.wfc.creditsToRefill) ≤ f.sp.pgsPerLine
      rw [hcredits]
      exact hle
    · change 2 * f.sp.pgsPerLine + 2 + u32 (f.wfc.writeCredits + f.wfc.creditsToRefill) ≤
        Nvmev.space f fill
      rw [hcredits]
      omega
    · change 0 < u32 (f.wfc.writeCredits + f.wfc.creditsToRefill)
      rw [hcredits]
      exact hpos

end Refill

/-! ## One page of a write -/

/-- The logical page `lpn` before its new page: its old page is invalid. -/
structure Opened (M : Prop) (m : Nat) (written : Nat → Prop) (lpn : Nat) (f : ConvFtl)
    (fill : IoType → Nat) (f' : ConvFtl) (cls' : Nat → LineClass) : Prop where
  ready : Ready f' cls' (fun _ _ => False) fill
  quiet : ∀ l < f.sp.blksPerPl, cls' l ≠ .collected
  space : space f' fill = space f fill
  sp : f'.sp = f.sp
  cp : f'.cp = f.cp
  wfc : f'.wfc = f.wfc
  map : M → MapInv f' m written (fun _ => False) fun l => False ∨ l = lpn

theorem Idle.invalidateOldPage {lpn : Nat} (hSM : S → M) (hsmall : S → f.sp.pgsPerLine < 2 ^ 31)
    (h : Idle M m written f cls fill) (hlpn : M → lpn < m) :
    Spec S (invalidateOldPage f lpn) fun f' => ∃ cls', Opened M m written lpn f fill f' cls' := by
  unfold Nvmev.invalidateOldPage
  split
  swap
  · rename_i hno
    refine .ret ⟨cls, h.ready, h.quiet, rfl, rfl, rfl, rfl, fun hM => (h.map hM).openUnmapped ?_⟩
    exact Bool.eq_false_iff.mpr hno
  rename_i hmapped
  have hpage (hM : M) := (h.map hM).page lpn (hlpn hM) id hmapped
  refine (h.ready.markPageInvalid (h.quiet _) hsmall fun hS => ?_).bind ?_
  · have hp := hpage (hSM hS)
    exact ⟨hp.1.valid h.ready.acc.geometry, hp.1.page.symm ▸ hp.2.1⟩
  rintro f₁ ⟨-, b, lm, rfl, hfree, hready⟩
  -- the reverse map is not part of the accounting
  have hrmap : Spec S (setRmapEnt (setStatus f (f.maptbl lpn).page .invalid b lm) invalidLpn
      (f.maptbl lpn)) fun f₂ => ∃ idx : Nat,
        f₂ = { setStatus f (f.maptbl lpn).page .invalid b lm with
          rmap := update f.rmap idx invalidLpn } ∧ (M → idx = pgidx f.sp (f.maptbl lpn)) := by
    unfold setRmapEnt ppa2pgidx
    refine .bind (Q := fun idx => idx = pgidx f.sp (f.maptbl lpn)) ?_ fun idx hidx =>
      .ret ⟨idx, rfl, fun _ => hidx⟩
    exact .bind (.ensure fun hS => (h.ready.acc.geometry.pgidx_eq (hpage (hSM hS)).1).2)
      fun _ _ => .ret rfl
  refine hrmap.mono ?_
  rintro f₂ ⟨idx, rfl, hidx⟩
  refine ⟨_, hready.congr rfl rfl rfl rfl rfl rfl, fun l hl => ?_, ?_, rfl, rfl, rfl, fun hM => ?_⟩
  · rw [ne_eq, toVictim_eq_iff (by decide) (by decide)]
    exact h.quiet l hl
  · unfold Nvmev.space
    change lm.freeLineList.length * _ + _ + _ = _
    rw [hfree]
    rfl
  · have hp := hpage hM
    have hpages : (setStatus f (f.maptbl lpn).page .invalid b lm).pages = update f.pages (f.maptbl lpn)
        { status := .invalid, nsecs := (f.pages (f.maptbl lpn)).nsecs } := by
      unfold setStatus
      rw [hp.1.page]
    refine (h.map hM).invalidate (v := invalidLpn) (hlpn hM) id hmapped h.ready.acc.geometry ?_ rfl rfl
      hpages ?_
    · rfl
    · rw [hidx hM]

/-- `lpn` has a new page. -/
structure PageWritten (M : Prop) (m : Nat) (written : Nat → Prop) (lpn : Nat) (f : ConvFtl)
    (fill : IoType → Nat) (f' : ConvFtl) (cls' : Nat → LineClass) (fill' : IoType → Nat) : Prop where
  idle : Idle M m (fun l => written l ∨ l = lpn) f' cls' fill'
  space : space f' fill' + 1 = space f fill
  sp : f'.sp = f.sp
  cp : f'.cp = f.cp
  wfc : f'.wfc = f.wfc

theorem Idle.convWritePage {lpn : Nat} (hSM : S → M) (hsmall : S → f.sp.pgsPerLine < 2 ^ 31)
    (hroom : S → f.sp.pgsPerLine + 1 < space f fill) (h : Idle M m written f cls fill)
    (hlpn : M → lpn < m) : Spec S (convWritePage f lpn) fun r =>
      ∃ cls' fill', PageWritten M m written lpn f fill r.2 cls' fill' := by
  rw [convWritePage_eq]
  refine (h.invalidateOldPage hSM hsmall hlpn).bind ?_
  rintro f₁ ⟨cls₁, ho⟩
  have hP : f₁.sp.pgsPerLine = f.sp.pgsPerLine := congrArg _ ho.sp
  refine (ho.ready.programPage .userIo (fun hS => ?_) (fun hS => ?_) fun hS hend => ?_).mono ?_
  · have hM := hSM hS
    rw [ho.sp]
    exact Nat.lt_of_lt_of_le (hlpn hM) (h.map hM).le_ttPgs
  · exact (ho.ready.acc.fitsInt .userIo (hP ▸ hsmall hS)).1
  · have hfits := (ho.ready.placed .userIo lpn).fitsInt .userIo (hP ▸ hsmall hS)
    rw [getWp_placed] at hfits
    refine ⟨hfits, freeLine_of_space ?_ hend⟩
    rw [hP, ho.space]
    exact hroom hS
  rintro ⟨ppa, f₂⟩ ⟨cls₂, fill₂, hw, -⟩
  refine ⟨cls₂, fill₂, ⟨hw.ready, fun l hl => ?_, fun hM => ?_⟩, hw.space.trans ho.space,
    hw.sp.trans ho.sp, hw.cp.trans ho.cp, hw.wfc.trans ho.wfc⟩
  · rw [hw.sp, ho.sp] at hl
    rw [ne_eq, hw.collected l (by rw [ho.sp]; exact hl)]
    exact ho.quiet l hl
  · exact (ho.map hM).program (fun l => by simp) (hlpn hM) ho.ready id hw

end Nvmev
