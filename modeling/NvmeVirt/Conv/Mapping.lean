import NvmeVirt.Conv.Pointer

/-!
# The maps of the conventional FTL

What the writes of a page do to `MapInv`. A logical page is opened first: `conv_write` makes its page
invalid (`MapInv.invalidate`), `gc_write_page` leaves it stale (`MapInv.openStale`). Then the page at a
write pointer becomes its page (`Ready.programPage`, `MapInv.program`).
-/

namespace Nvmev

open CInt Function Outcome

variable {f f' : ConvFtl} {cls cls' : Nat → LineClass} {freed : Nat → Nat → Prop}
  {fill fill' : IoType → Nat} {lpn m : Nat} {written openLpn : Nat → Prop} {stale : Ppa → Prop} {p q : Ppa}

/-! ## A new page -/

/-- The page of the write pointer of `io` becomes the page of `lpn`. -/
structure Programmed (io : IoType) (lpn : Nat) (f : ConvFtl) (cls : Nat → LineClass)
    (freed : Nat → Nat → Prop) (fill : IoType → Nat) (ppa : Ppa) (f' : ConvFtl)
    (cls' : Nat → LineClass) (fill' : IoType → Nat) : Prop where
  ready : Ready f' cls' freed fill'
  space : space f' fill' + 1 = space f fill
  collected : ∀ l < f.sp.blksPerPl, cls' l = .collected ↔ cls l = .collected
  ppa_eq : ppa = (f.getWp io).page
  lpn_lt : lpn < f.sp.ttPgs
  sp : f'.sp = f.sp
  cp : f'.cp = f.cp
  wfc : f'.wfc = f.wfc
  maptbl : f'.maptbl = update f.maptbl lpn ppa
  rmap : f'.rmap = update f.rmap (pgidx f.sp ppa) lpn
  pages : f'.pages = update f.pages ppa { status := .valid, nsecs := (f.pages ppa).nsecs }

/-- `ppa2pgidx` of a page on the chips. -/
theorem ppa2pgidx_eq (g : Geometry f.sp) (hp : OnChip f.sp p) : ppa2pgidx f p = .ok (pgidx f.sp p) := by
  unfold ppa2pgidx nvmevAssert
  rw [ensure_of _ (g.pgidx_eq hp).2]
  rfl

theorem getRmapEnt_eq (g : Geometry f.sp) (hp : OnChip f.sp p) :
    getRmapEnt f p = .ok (f.rmap (pgidx f.sp p)) := by
  unfold getRmapEnt
  rw [ppa2pgidx_eq g hp]
  rfl

theorem setRmapEnt_eq (g : Geometry f.sp) (hp : OnChip f.sp p) (lpn : Nat) :
    setRmapEnt f lpn p = .ok { f with rmap := update f.rmap (pgidx f.sp p) lpn } := by
  unfold setRmapEnt
  rw [ppa2pgidx_eq g hp]
  rfl

/-- The state after `set_maptbl_ent` and `set_rmap_ent`. -/
def remapped (f : ConvFtl) (lpn : Nat) (p : Ppa) : ConvFtl :=
  { f with maptbl := update f.maptbl lpn p, rmap := update f.rmap (pgidx f.sp p) lpn }

theorem getWp_remapped (f : ConvFtl) (lpn : Nat) (p : Ppa) (io : IoType) :
    (remapped f lpn p).getWp io = f.getWp io := by
  cases io <;> rfl

/-- The maps are not part of the accounting. -/
theorem Ready.remapped (h : Ready f cls freed fill) (lpn : Nat) (p : Ppa) :
    Ready (remapped f lpn p) cls freed fill := h.congr rfl rfl rfl rfl rfl rfl

/-- One page of the line of a write pointer is written. -/
theorem space_succ {io : IoType} (h : fill io < f.sp.pgsPerLine) :
    space f (update fill io (fill io + 1)) + 1 = space f fill := by
  unfold space
  cases io
  · rw [update_self, update_of_ne (by decide)]
    omega
  · rw [update_self, update_of_ne (by decide)]
    omega

/-- With more than a line and a page left, the end of a line finds a free one. -/
theorem freeLine_of_space {io : IoType} (h : f.sp.pgsPerLine + 1 < space f fill)
    (hend : fill io + 1 = f.sp.pgsPerLine) : f.lm.freeLineList ≠ [] := by
  intro hnil
  unfold space at h
  rw [hnil, List.length_nil] at h
  cases io <;> omega

/-- The counters of the line of a write pointer count its pages. -/
theorem Accounting.fitsInt (h : Accounting f cls freed fill) (io : IoType)
    (hsmall : f.sp.pgsPerLine < 2 ^ 31) : (f.lm.lines (f.getWp io).curline).FitsInt := by
  have hin := h.wp.inLine io
  have hcls := (h.wp.current io _ hin.curline).mpr rfl
  have hc : cls (f.getWp io).curline ≠ .collected := by
    rw [hcls]
    cases io <;> decide
  unfold Line.FitsInt
  rw [h.counts.vpc _ hin.curline hc, h.counts.ipc _ hin.curline hc]
  exact ⟨Nat.lt_of_le_of_lt (h.geometry.lineCount_le _ _ _) hsmall,
    Nat.lt_of_le_of_lt (h.geometry.lineCount_le _ _ _) hsmall⟩

theorem getWp_validated (f : ConvFtl) (p : Ppa) (io : IoType) :
    (validated f p).getWp io = f.getWp io := by
  cases io <;> rfl

/-- The state with the page of the write pointer of `io` as the page of `lpn`, before the pointer moves
on. -/
def placed (f : ConvFtl) (io : IoType) (lpn : Nat) : ConvFtl :=
  validated (remapped f lpn (f.getWp io).page) (f.getWp io).page

theorem getWp_placed (f : ConvFtl) (io io' : IoType) (lpn : Nat) :
    (placed f io lpn).getWp io' = f.getWp io' := by
  unfold placed
  rw [getWp_validated, getWp_remapped]

/-- The page at a write pointer becomes the page of `lpn`. -/
theorem Ready.placed (h : Ready f cls freed fill) (io : IoType) (lpn : Nat) :
    Accounting (placed f io lpn) cls freed (update fill io (fill io + 1)) := by
  have h₁ := h.remapped lpn (f.getWp io).page
  have hacc := (h₁.acc.validated io (h₁.place io)).2.2
  rwa [getWp_remapped] at hacc

/-- `programPage` up to the step of the write pointer. -/
theorem Ready.place_spec {S : Prop} (h : Ready f cls freed fill) (io : IoType)
    (hlpn : S → lpn < f.sp.ttPgs) (hvpc : S → (f.lm.lines (f.getWp io).curline).vpc < 2 ^ 31)
    {Q : Ppa × ConvFtl → Prop} (hQ : lpn < f.sp.ttPgs →
      (f.lm.lines (f.getWp io).curline).vpc < 2 ^ 31 →
      Spec S (Nvmev.advanceWritePointer (Nvmev.placed f io lpn) io) fun f' => Q ((f.getWp io).page, f')) :
    Spec S (Nvmev.programPage f io lpn) Q := by
  have g := h.acc.geometry
  have hin := h.acc.wp.inLine io
  have hp := hin.onChip
  have h₁ := h.remapped lpn (f.getWp io).page
  obtain ⟨hfree, hcls, hacc⟩ := h₁.acc.validated io (h₁.place io)
  rw [getWp_remapped] at hfree hcls hacc
  have hc : cls (f.getWp io).page.blk ≠ .collected := by
    change cls (f.getWp io).curline ≠ _
    rw [hcls]
    cases io <;> decide
  unfold Nvmev.programPage
  rw [getNewPage_eq g hin, ok_bind]
  refine .bind (Q := fun f₁ => lpn < f.sp.ttPgs ∧
    f₁ = { f with maptbl := update f.maptbl lpn (f.getWp io).page }) ?_ ?_
  · exact .bind (.ensure hlpn) fun _ hlt => .ret ⟨hlt, rfl⟩
  rintro f₁ ⟨hlt, rfl⟩
  refine .bind (Q := fun f₂ => f₂ = Nvmev.remapped f lpn (f.getWp io).page) ?_ ?_
  · rw [setRmapEnt_eq]
    · exact .ret rfl
    · exact g
    · exact hp
  rintro f₂ rfl
  refine (h₁.acc.markPageValid hp hfree hc hvpc).bind ?_
  rintro f₃ ⟨rfl, hsmall⟩
  exact (hQ hlt hsmall).bind fun f₄ hf₄ => .ret hf₄

theorem Ready.programPage {S : Prop} (h : Ready f cls freed fill) (io : IoType)
    (hlpn : S → lpn < f.sp.ttPgs) (hvpc : S → (f.lm.lines (f.getWp io).curline).vpc < 2 ^ 31)
    (hend : S → fill io + 1 = f.sp.pgsPerLine →
      ((Nvmev.placed f io lpn).lm.lines (f.getWp io).curline).FitsInt ∧ f.lm.freeLineList ≠ []) :
    Spec S (programPage f io lpn) fun r => ∃ cls' fill',
      Programmed io lpn f cls freed fill r.1 r.2 cls' fill' ∧ Turned (Nvmev.placed f io lpn) io r.2 ∧
        (f.lm.lines (f.getWp io).curline).vpc < 2 ^ 31 := by
  have hin := h.acc.wp.inLine io
  refine h.place_spec io hlpn hvpc fun hlt hsmall => ?_
  refine ((h.placed io lpn).advanceWritePointer (S := S) ?_ ?_ ?_).mono ?_
  · rw [getWp_placed, update_self, ← h.place io]
    rfl
  · intro io' hio
    rw [getWp_placed, update_of_ne hio]
    exact h.place io'
  · rw [update_self, getWp_placed]
    exact hend
  rintro f₄ ⟨cls', fill', ha, hturn⟩
  refine ⟨cls', fill', ⟨ha.ready, ?_, ha.collected, rfl, hlt, ha.sp, ha.cp, ha.wfc, ha.maptbl,
    ha.rmap, ha.pages⟩, hturn, hsmall⟩
  have hlt : fill io < f.sp.pgsPerLine := by
    rw [← h.place io]
    exact hin.place_lt h.acc.geometry
  rw [ha.space]
  exact space_succ hlt

/-! ## The maps -/

namespace MapInv

variable (h : MapInv f m written stale openLpn)

include h

/-- The page of a mapped logical page is not the page of another one. -/
theorem injective {l l' : Nat} (hl : l < m) (hl' : l' < m) (ho : ¬ openLpn l) (ho' : ¬ openLpn l')
    (hmap : mappedPpa (f.maptbl l) = true) (he : f.maptbl l = f.maptbl l') : l = l' := by
  have h1 := (h.page l hl ho hmap).2.2.2
  have h2 := (h.page l' hl' ho' (he ▸ hmap)).2.2.2
  rw [← h1, ← h2, he]

/-- An invalid page is not the page of a logical page. -/
theorem addStale (hq : (f.pages q).status ≠ .valid) :
    MapInv f m written (fun p => stale p ∨ p = q) openLpn := by
  refine ⟨h.le_ttPgs, h.mapped, fun l hl ho hmap => ?_, fun p hp hv hst => ?_⟩
  · obtain ⟨hp, hv, hst, hr⟩ := h.page l hl ho hmap
    refine ⟨hp, hv, ?_, hr⟩
    rintro (hs | rfl)
    · exact hst hs
    · exact hq hv
  · exact h.lpn p hp hv fun hs => hst (.inl hs)

theorem congrStale {stale' : Ppa → Prop} (hst : ∀ p, OnChip f.sp p → (stale' p ↔ stale p)) :
    MapInv f m written stale' openLpn := by
  refine ⟨h.le_ttPgs, h.mapped, fun l hl ho hmap => ?_, fun p hp hv hs => ?_⟩
  · obtain ⟨hp, hv, hs, hr⟩ := h.page l hl ho hmap
    exact ⟨hp, hv, mt (hst _ hp).mp hs, hr⟩
  · exact h.lpn p hp hv (mt (hst p hp).mpr hs)

theorem congrWritten {written' : Nat → Prop} (hw : ∀ l, written l ↔ written' l) :
    MapInv f m written' stale openLpn :=
  ⟨h.le_ttPgs, fun l hl ho => (h.mapped l hl ho).trans (hw l), h.page, h.lpn⟩

/-- Stale pages that are not valid any more. -/
theorem dropStale (hst : ∀ p, OnChip f.sp p → stale p → (f.pages p).status ≠ .valid) :
    MapInv f m written (fun _ => False) openLpn := by
  refine ⟨h.le_ttPgs, h.mapped, fun l hl ho hmap => ?_, fun p hp hv _ => ?_⟩
  · obtain ⟨hp, hv, -, hr⟩ := h.page l hl ho hmap
    exact ⟨hp, hv, id, hr⟩
  · exact h.lpn p hp hv fun hs => hst p hp hs hv

/-- Only stale pages change. -/
theorem setPages (hkeep : ∀ p, OnChip f.sp p → ¬ stale p → f'.pages p = f.pages p)
    (hsp : f'.sp = f.sp) (hmap : f'.maptbl = f.maptbl) (hrmap : f'.rmap = f.rmap) :
    MapInv f' m written stale openLpn := by
  obtain ⟨h1, h2, h3, h4⟩ := h
  refine ⟨by rwa [hsp], by rwa [hmap], fun l hl ho hmapped => ?_, fun p hp hv hs => ?_⟩
  · rw [hmap] at hmapped ⊢
    obtain ⟨hp, hv, hs, hr⟩ := h3 l hl ho hmapped
    rw [hsp, hkeep _ hp hs, hrmap]
    exact ⟨hp, hv, hs, hr⟩
  · rw [hsp] at hp ⊢
    rw [hkeep p hp hs] at hv
    rw [hrmap, hmap]
    exact h4 p hp hv hs

/-- The garbage collection leaves a page stale and opens its logical page. -/
theorem openStale (hq : OnChip f.sp q) (hv : (f.pages q).status = .valid) (hst : ¬ stale q) :
    MapInv f m written (fun p => stale p ∨ p = q) fun l => openLpn l ∨ l = f.rmap (pgidx f.sp q) := by
  obtain ⟨hlt, ho, hmap⟩ := h.lpn q hq hv hst
  refine ⟨h.le_ttPgs, fun l hl hno => h.mapped l hl (fun h => hno (.inl h)), fun l hl hno hmapped => ?_,
    fun p hp hv hs => ?_⟩
  · obtain ⟨hp, hv, hs, hr⟩ := h.page l hl (fun h => hno (.inl h)) hmapped
    refine ⟨hp, hv, ?_, hr⟩
    rintro (h | he)
    · exact hs h
    · rw [he] at hr
      exact hno (.inr hr.symm)
  · obtain ⟨hlt', ho', hmap'⟩ := h.lpn p hp hv fun h => hs (.inl h)
    refine ⟨hlt', ?_, hmap'⟩
    rintro (h | he)
    · exact ho' h
    · rw [he, hmap] at hmap'
      exact hs (.inr hmap'.symm)

/-- `conv_write` on a logical page that is not mapped. -/
theorem openUnmapped (hno : mappedPpa (f.maptbl lpn) = false) :
    MapInv f m written stale fun l => openLpn l ∨ l = lpn := by
  refine ⟨h.le_ttPgs, fun l hl ho => h.mapped l hl fun h => ho (.inl h),
    fun l hl ho => h.page l hl fun h => ho (.inl h), fun p hp hv hs => ?_⟩
  obtain ⟨hlt, ho, hmap⟩ := h.lpn p hp hv hs
  refine ⟨hlt, ?_, hmap⟩
  rintro (h | he)
  · exact ho h
  · rw [he] at hmap
    rw [hmap, hp.mapped] at hno
    cases hno

/-- `conv_write` on a mapped logical page: its page becomes invalid, and has no logical page. -/
theorem invalidate (hlt : lpn < m) (ho : ¬ openLpn lpn) (hmapped : mappedPpa (f.maptbl lpn) = true)
    (g : Geometry f.sp) {v : Nat} {pg : NandPage} (hpg : pg.status = .invalid) (hsp : f'.sp = f.sp)
    (hmap : f'.maptbl = f.maptbl) (hpages : f'.pages = update f.pages (f.maptbl lpn) pg)
    (hrmap : f'.rmap = update f.rmap (pgidx f.sp (f.maptbl lpn)) v) :
    MapInv f' m written stale fun l => openLpn l ∨ l = lpn := by
  have hq := h.page lpn hlt ho hmapped
  have hne {p : Ppa} (hp : OnChip f.sp p) (hpq : p ≠ f.maptbl lpn) :
      pgidx f.sp p ≠ pgidx f.sp (f.maptbl lpn) := fun he => hpq (g.pgidx_inj hp hq.1 he)
  refine ⟨by rw [hsp]; exact h.le_ttPgs, fun l hl hno => ?_, fun l hl hno hm => ?_, fun p hp hv hs => ?_⟩
  · rw [hmap]
    exact h.mapped l hl fun h => hno (.inl h)
  · rw [hmap] at hm ⊢
    obtain ⟨hp, hv, hs, hr⟩ := h.page l hl (fun h => hno (.inl h)) hm
    have hpq : f.maptbl l ≠ f.maptbl lpn := by
      intro he
      exact hno (.inr (h.injective hl hlt (fun h => hno (.inl h)) ho hm he))
    rw [hsp, hpages, hrmap, update_of_ne hpq, update_of_ne (hne hp hpq)]
    exact ⟨hp, hv, hs, hr⟩
  · rw [hsp] at hp ⊢
    have hpq : p ≠ f.maptbl lpn := by
      rintro rfl
      rw [hpages, update_self, hpg] at hv
      cases hv
    rw [hpages, update_of_ne hpq] at hv
    obtain ⟨hlt', ho', hmap'⟩ := h.lpn p hp hv hs
    rw [hrmap, update_of_ne (hne hp hpq), hmap]
    refine ⟨hlt', ?_, hmap'⟩
    rintro (h | he)
    · exact ho' h
    · rw [he] at hmap'
      exact hpq hmap'.symm

end MapInv

/-- The open logical page gets the page of a write pointer. -/
theorem MapInv.program {io : IoType} {ppa : Ppa} (h : MapInv f m written stale openLpn)
    (hopen : ∀ l, openLpn l ↔ l = lpn) (hlt : lpn < m) (hr : Ready f cls freed fill)
    (hst : ¬ stale ppa) (hP : Programmed io lpn f cls freed fill ppa f' cls' fill') :
    MapInv f' m (fun l => written l ∨ l = lpn) stale fun _ => False := by
  have g := hr.acc.geometry
  have hp : OnChip f.sp ppa := by
    rw [hP.ppa_eq]
    exact (hr.acc.wp.inLine io).onChip
  have hfree : (f.pages ppa).status = .free := by
    rw [hP.ppa_eq]
    exact (hr.acc.validated io (hr.place io)).1
  have hne {q : Ppa} (hq : OnChip f.sp q) (hqp : q ≠ ppa) : pgidx f.sp q ≠ pgidx f.sp ppa :=
    fun he => hqp (g.pgidx_inj hq hp he)
  refine ⟨by rw [hP.sp]; exact h.le_ttPgs, fun l hl _ => ?_, fun l hl _ hm => ?_, fun q hq hv hs => ?_⟩
  · rw [hP.maptbl]
    by_cases he : l = lpn
    · subst he
      rw [update_self]
      exact iff_of_true hp.mapped (.inr rfl)
    · rw [update_of_ne he, h.mapped l hl (mt (hopen l).mp he)]
      simp [he]
  · rw [hP.maptbl] at hm ⊢
    by_cases he : l = lpn
    · subst he
      rw [update_self, hP.sp, hP.pages, hP.rmap, update_self, update_self]
      exact ⟨hp, rfl, hst, rfl⟩
    · rw [update_of_ne he] at hm ⊢
      obtain ⟨hq, hv, hs, hrm⟩ := h.page l hl (mt (hopen l).mp he) hm
      have hqp : f.maptbl l ≠ ppa := by
        intro heq
        rw [heq, hfree] at hv
        cases hv
      rw [hP.sp, hP.pages, hP.rmap, update_of_ne hqp, update_of_ne (hne hq hqp)]
      exact ⟨hq, hv, hs, hrm⟩
  · rw [hP.sp] at hq ⊢
    rw [hP.rmap, hP.maptbl]
    by_cases hqp : q = ppa
    · subst hqp
      rw [update_self, update_self]
      exact ⟨hlt, id, rfl⟩
    · rw [hP.pages, update_of_ne hqp] at hv
      obtain ⟨hlt', ho, hmap⟩ := h.lpn q hq hv hs
      rw [update_of_ne (hne hq hqp), update_of_ne (mt (hopen _).mpr ho)]
      exact ⟨hlt', id, hmap⟩

end Nvmev
