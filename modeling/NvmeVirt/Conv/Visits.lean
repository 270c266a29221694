import NvmeVirt.Conv.Mapping

/-!
# The loops of a garbage collection

`do_gc` passes the pages of the victim line flash page by flash page over all blocks (`gcOrder`): a
valid page is copied, and a block is freed after its last flash page. `Visits` says what a property of
the state after `k` pages and `b` blocks must keep, `Visits.loops` that it then holds after the loops.
-/

namespace Nvmev

open CInt Function Outcome Tally

/-! ## The order of the copies -/

/-- The place of a page of the victim line in the order in which `do_gc` passes them. -/
def gcOrder (sp : SsdParams) (ch lun pg : Nat) : Nat :=
  ((pg / sp.pgsPerFlashpg * sp.nchs + ch) * sp.lunsPerCh + lun) * sp.pgsPerFlashpg +
    pg % sp.pgsPerFlashpg

section Order

variable {sp : SsdParams} {ch lun pg ch' lun' pg' fp i : Nat}

theorem Geometry.flashpg_pos (g : Geometry sp) : 0 < sp.pgsPerFlashpg := by
  have := g.pos
  rw [g.pgsPerLine, g.flashpg] at this
  exact Nat.pos_of_mul_pos_right (Nat.pos_of_mul_pos_left this)

theorem Geometry.gcOrder_inj (g : Geometry sp) (hch : ch < sp.nchs) (hlun : lun < sp.lunsPerCh)
    (hch' : ch' < sp.nchs) (hlun' : lun' < sp.lunsPerCh)
    (h : gcOrder sp ch lun pg = gcOrder sp ch' lun' pg') : ch = ch' ∧ lun = lun' ∧ pg = pg' := by
  have hF := g.flashpg_pos
  obtain ⟨hhi, hmod⟩ := radix_inj (Nat.mod_lt pg hF) (Nat.mod_lt pg' hF) h
  obtain ⟨hmid, hl⟩ := radix_inj hlun hlun' hhi
  obtain ⟨hdiv, hc⟩ := radix_inj hch hch' hmid
  refine ⟨hc, hl, ?_⟩
  rw [← Nat.div_add_mod pg sp.pgsPerFlashpg, ← Nat.div_add_mod pg' sp.pgsPerFlashpg, hdiv, hmod]

/-- The page `i` of a flash page. -/
theorem gcOrder_page (hi : i < sp.pgsPerFlashpg) : gcOrder sp ch lun (fp * sp.pgsPerFlashpg + i) =
    ((fp * sp.nchs + ch) * sp.lunsPerCh + lun) * sp.pgsPerFlashpg + i := by
  unfold gcOrder
  rw [Nat.mul_comm fp, Nat.mul_add_div (by omega), Nat.div_eq_of_lt hi, Nat.add_zero, Nat.mul_add_mod,
    Nat.mod_eq_of_lt hi]

theorem Geometry.flashpg_lt (g : Geometry sp) (hfp : fp < sp.flashpgsPerBlk)
    (hi : i < sp.pgsPerFlashpg) : fp * sp.pgsPerFlashpg + i < sp.pgsPerBlk := by
  rw [g.flashpg, Nat.mul_comm sp.pgsPerFlashpg]
  exact radix_lt hfp hi

/-- The pages of a block are passed when its last flash page is. -/
theorem Geometry.gcOrder_lt (g : Geometry sp) (hpg : pg < sp.pgsPerBlk)
    (hfp : fp + 1 = sp.flashpgsPerBlk) :
    gcOrder sp ch lun pg <
      ((fp * sp.nchs + ch) * sp.lunsPerCh + lun) * sp.pgsPerFlashpg + sp.pgsPerFlashpg := by
  have hF := g.flashpg_pos
  have hdiv : pg / sp.pgsPerFlashpg ≤ fp := by
    rw [g.flashpg, ← hfp, Nat.mul_comm] at hpg
    exact Nat.le_of_lt_succ ((Nat.div_lt_iff_lt_mul hF).mpr hpg)
  unfold gcOrder
  calc ((pg / sp.pgsPerFlashpg * sp.nchs + ch) * sp.lunsPerCh + lun) * sp.pgsPerFlashpg +
        pg % sp.pgsPerFlashpg
      < ((pg / sp.pgsPerFlashpg * sp.nchs + ch) * sp.lunsPerCh + lun) * sp.pgsPerFlashpg +
        sp.pgsPerFlashpg := Nat.add_lt_add_left (Nat.mod_lt _ hF) _
    _ ≤ _ := by gcongr

theorem Geometry.gcOrder_lt_line (g : Geometry sp) (hch : ch < sp.nchs) (hlun : lun < sp.lunsPerCh)
    (hpg : pg < sp.pgsPerBlk) : gcOrder sp ch lun pg < sp.pgsPerLine := by
  have hF := g.flashpg_pos
  have hdiv : pg / sp.pgsPerFlashpg < sp.flashpgsPerBlk := by
    rw [Nat.div_lt_iff_lt_mul hF, Nat.mul_comm, ← g.flashpg]
    exact hpg
  have hlt := radix_lt (radix_lt (radix_lt hdiv hch) hlun) (Nat.mod_lt pg hF)
  unfold gcOrder
  rwa [g.pgsPerLine, g.flashpg, show sp.lunsPerCh * sp.nchs * (sp.pgsPerFlashpg * sp.flashpgsPerBlk) =
    sp.flashpgsPerBlk * sp.nchs * sp.lunsPerCh * sp.pgsPerFlashpg by ring]

end Order

theorem Geometry.addPg_eq {sp : SsdParams} (g : Geometry sp) {line ch lun pg i : Nat}
    (h : pg + i < sp.pgsPerBlk) : (pageAt line ch lun pg).addPg i = pageAt line ch lun (pg + i) := by
  have := g.fits.pg
  unfold Ppa.addPg pageAt
  dsimp only
  rw [Nat.mod_eq_of_lt (by omega)]

/-! ## A block becomes free -/

/-- The pages after the first `n` pages of a block became free. -/
def erased (f : ConvFtl) (l ch lun n : Nat) (p : Ppa) : NandPage :=
  if p = pageAt l ch lun p.pg ∧ p.pg < n then { f.pages p with status := .free } else f.pages p

section Erase

variable {f : ConvFtl} {l ch lun n : Nat}

theorem erased_succ : update (erased f l ch lun n) (pageAt l ch lun n)
    { erased f l ch lun n (pageAt l ch lun n) with status := .free } = erased f l ch lun (n + 1) := by
  funext p
  by_cases hp : p = pageAt l ch lun n
  · subst hp
    rw [update_self, erased, erased, if_neg (fun h => absurd h.2 (Nat.lt_irrefl _)),
      if_pos ⟨rfl, Nat.lt_succ_self n⟩]
  · rw [update_of_ne hp]
    have hiff : (p = pageAt l ch lun p.pg ∧ p.pg < n + 1) ↔ (p = pageAt l ch lun p.pg ∧ p.pg < n) := by
      refine ⟨fun ⟨h1, h2⟩ => ⟨h1, ?_⟩, fun ⟨h1, h2⟩ => ⟨h1, by omega⟩⟩
      have hne : p.pg ≠ n := fun he => hp (by rw [h1, he])
      omega
    unfold erased
    simp only [hiff]

theorem erased_nsecs (p : Ppa) : (erased f l ch lun n p).nsecs = (f.pages p).nsecs := by
  unfold erased
  split <;> rfl

theorem erased_self {pg : Nat} (h : pg < n) :
    (erased f l ch lun n (pageAt l ch lun pg)).status = .free := by
  unfold erased
  rw [if_pos ⟨rfl, h⟩]

theorem erased_of_ne {l' ch' lun' pg : Nat} (h : ¬ (l' = l ∧ ch' = ch ∧ lun' = lun)) :
    erased f l ch lun n (pageAt l' ch' lun' pg) = f.pages (pageAt l' ch' lun' pg) := by
  unfold erased
  rw [if_neg]
  rintro ⟨he, -⟩
  obtain ⟨h1, h2, h3, -⟩ := pageAt_inj he
  exact h ⟨h1, h2, h3⟩

/-- The state after `mark_block_free`. -/
def freedBlock (f : ConvFtl) (l ch lun : Nat) : ConvFtl :=
  { f with
    pages := erased f l ch lun f.sp.pgsPerBlk
    blocks := update f.blocks (pageAt l ch lun 0)
      { f.blocks (pageAt l ch lun 0) with
        ipc := 0, vpc := 0, eraseCnt := (f.blocks (pageAt l ch lun 0)).eraseCnt + 1 } }

theorem NandInv.markBlockFree (h : NandInv f) {pg : Nat} (hp : OnChip f.sp (pageAt l ch lun pg))
    (g : Geometry f.sp) : markBlockFree f (pageAt l ch lun pg) = .ok (freedBlock f l ch lun) := by
  have hloop : Total (forRange f.sp.pgsPerBlk f.pages fun pages i => do
      let pg := pages { pageAt l ch lun 0 with pg := i }
      nvmevAssert (pg.nsecs = f.sp.secsPerPg) .markBlockFree
      pure (update pages { pageAt l ch lun 0 with pg := i } { pg with status := .free }))
      fun pages => pages = erased f l ch lun f.sp.pgsPerBlk := by
    refine .forRange (I := fun i pages => pages = erased f l ch lun i) ?_ ?_
    · funext p
      unfold erased
      rw [if_neg fun h => absurd h.2 (Nat.not_lt_zero _)]
    · rintro i - pages rfl
      dsimp only
      rw [nvmevAssert, ensure_of _ ((erased_nsecs _).trans (h.nsecs _)), ok_bind]
      exact .ret erased_succ
  obtain ⟨pages, hpages, rfl⟩ := hloop
  unfold Nvmev.markBlockFree nvmevAssert at *
  rw [hp.inBounds g, ok_bind, hp.block]
  dsimp only [pageAt] at hpages ⊢
  rw [hpages, ok_bind, ensure_of _ (h.npgs _)]
  rfl

/-- The counters of a block that became free are zero. -/
theorem NandInv.freedBlock (h : NandInv f) (v : Nat) : NandInv (freedBlock f v ch lun) := by
  have hcount (s : PgStatus) (cnt : NandBlock → Nat) (hs : s ≠ .free)
      (hcnt : ∀ l < f.sp.blksPerPl, ∀ ch < f.sp.nchs, ∀ lun < f.sp.lunsPerCh,
        cnt (f.blocks (pageAt l ch lun 0)) = blockCount f.sp f.pages s l ch lun)
      (hb : cnt { f.blocks (pageAt v ch lun 0) with
        ipc := 0, vpc := 0, eraseCnt := (f.blocks (pageAt v ch lun 0)).eraseCnt + 1 } = 0)
      (l : Nat) (hl : l < f.sp.blksPerPl) (ch' : Nat) (hch : ch' < f.sp.nchs) (lun' : Nat)
      (hlun : lun' < f.sp.lunsPerCh) :
      cnt ((Nvmev.freedBlock f v ch lun).blocks (pageAt l ch' lun' 0)) =
        blockCount f.sp (Nvmev.freedBlock f v ch lun).pages s l ch' lun' := by
    by_cases he : l = v ∧ ch' = ch ∧ lun' = lun
    · obtain ⟨rfl, rfl, rfl⟩ := he
      refine ((congrArg cnt (update_self ..)).trans hb).trans (Eq.symm ?_)
      refine tally_eq_zero.mpr fun pg hpg => ?_
      change ((erased f l ch' lun' f.sp.pgsPerBlk (pageAt l ch' lun' pg)).status == s) = false
      rw [erased_self (Finset.mem_range.mp hpg)]
      exact beq_false_of_ne (Ne.symm hs)
    · have hne : pageAt l ch' lun' 0 ≠ pageAt v ch lun 0 := by
        intro heq
        obtain ⟨h1, h2, h3, -⟩ := pageAt_inj heq
        exact he ⟨h1, h2, h3⟩
      refine (congrArg cnt (update_of_ne hne ..)).trans ((hcnt l hl ch' hch lun' hlun).trans ?_)
      refine tally_congr fun pg _ => ?_
      change _ = ((erased f v ch lun f.sp.pgsPerBlk (pageAt l ch' lun' pg)).status == s)
      rw [erased_of_ne he]
  refine ⟨fun p => (erased_nsecs p).trans (h.nsecs p), fun q => ?_,
    hcount .valid (·.vpc) (by decide) h.vpc rfl, hcount .invalid (·.ipc) (by decide) h.ipc rfl⟩
  change (update f.blocks (pageAt v ch lun 0) _ q).npgs = f.sp.pgsPerBlk
  by_cases hq : q = pageAt v ch lun 0
  · subst hq
    rw [update_self]
    exact h.npgs _
  · rw [update_of_ne hq]
    exact h.npgs q

end Erase

/-! ## The loops -/

/-- The pages of the line `v` are passed in the `gcOrder` and its blocks become free in their order:
`P k b` is what holds after the first `k` pages and the first `b` blocks. -/
structure Visits (S : Prop) (sp : SsdParams) (v : Nat) (P : Nat → Nat → ConvFtl → Prop) : Prop where
  geometry : Geometry sp
  lt : v < sp.blksPerPl
  sp_eq : ∀ {k b f}, P k b f → f.sp = sp
  nand : ∀ {k b f}, P k b f → NandInv f
  issue : ∀ {k b f} (cmd : NandCmd), P k b f → P k b (f.issue cmd)
  notFree : ∀ {k b f} {q : Ppa}, P k b f → OnChip sp q → q.blk = v → b ≤ q.ch * sp.lunsPerCh + q.lun →
    (f.pages q).status ≠ .free
  skip : ∀ {k b f} {q : Ppa}, P k b f → OnChip sp q → q.blk = v → gcOrder sp q.ch q.lun q.pg = k →
    (f.pages q).status ≠ .valid → P (k + 1) b f
  copy : ∀ {k b f} {q : Ppa}, P k b f → OnChip sp q → q.blk = v → gcOrder sp q.ch q.lun q.pg = k →
    (f.pages q).status = .valid → Spec S (gcWritePage f q) (P (k + 1) b)
  free : ∀ {k b f} {ch lun : Nat}, P k b f → ch < sp.nchs → lun < sp.lunsPerCh →
    b = ch * sp.lunsPerCh + lun → (∀ pg < sp.pgsPerBlk, gcOrder sp ch lun pg < k) →
    P k (b + 1) (freedBlock f v ch lun)

/-- The number of free blocks when `n` blocks are passed in the flash page `fp`. -/
def blocksAt (sp : SsdParams) (fp n : Nat) : Nat := if fp + 1 = sp.flashpgsPerBlk then n else 0

section Loops

variable {S : Prop} {sp : SsdParams} {v : Nat} {P : Nat → Nat → ConvFtl → Prop} {f : ConvFtl}
  {k b fp ch lun : Nat} (V : Visits S sp v P)

include V

/-- The pages of the flash page `fp` of a block. -/
theorem Visits.flashpg_onChip (hfp : fp < sp.flashpgsPerBlk) (hch : ch < sp.nchs)
    (hlun : lun < sp.lunsPerCh) {i : Nat} (hi : i < sp.pgsPerFlashpg) :
    (pageAt v ch lun (fp * sp.pgsPerFlashpg)).addPg i = pageAt v ch lun (fp * sp.pgsPerFlashpg + i) ∧
      OnChip sp (pageAt v ch lun (fp * sp.pgsPerFlashpg + i)) := by
  have hpg := V.geometry.flashpg_lt hfp hi
  exact ⟨V.geometry.addPg_eq hpg, pageAt_onChip V.lt hch hlun hpg⟩

/-! ### One flash page -/

theorem Visits.cleanOneFlashpg (h : P k b f) (hfp : fp < sp.flashpgsPerBlk) (hch : ch < sp.nchs)
    (hlun : lun < sp.lunsPerCh) (hk : k = ((fp * sp.nchs + ch) * sp.lunsPerCh + lun) * sp.pgsPerFlashpg)
    (hb : b ≤ ch * sp.lunsPerCh + lun) :
    Spec S (cleanOneFlashpg f (pageAt v ch lun (fp * sp.pgsPerFlashpg)))
      (P (k + sp.pgsPerFlashpg) b) := by
  have hsp := V.sp_eq h
  have hplace {i : Nat} (hi : i < sp.pgsPerFlashpg) :
      gcOrder sp ch lun (fp * sp.pgsPerFlashpg + i) = k + i := by
    rw [gcOrder_page hi, hk]
  unfold Nvmev.cleanOneFlashpg
  rw [hsp]
  refine .bind (Q := fun cnt => cnt = 0 → ∀ j < sp.pgsPerFlashpg,
    (f.pages (pageAt v ch lun (fp * sp.pgsPerFlashpg + j))).status ≠ .valid) ?_ fun cnt hcnt => ?_
  · refine .forRange (I := fun i cnt => cnt = 0 → ∀ j < i,
      (f.pages (pageAt v ch lun (fp * sp.pgsPerFlashpg + j))).status ≠ .valid)
      (fun _ j hj => by omega) fun i hi cnt hcnt => ?_
    obtain ⟨hadd, hon⟩ := V.flashpg_onChip hfp hch hlun hi
    rw [hadd, hon.inBounds V.geometry, ok_bind, hon.page]
    refine .bind (.ensure fun _ => V.notFree h hon rfl hb) fun _ _ => .ret fun hzero j hj => ?_
    split at hzero
    · omega
    · obtain hlt | rfl : j < i ∨ j = i := by omega
      · exact hcnt hzero j hlt
      · assumption
  split
  · -- no page of the flash page is valid
    rename_i hzero
    have hall := hcnt hzero
    have hskip : ∀ i ≤ sp.pgsPerFlashpg, P (k + i) b f := by
      intro i
      induction i with
      | zero => exact fun _ => h
      | succ i ih =>
        intro hi
        have hon := (V.flashpg_onChip hfp hch hlun (show i < _ by omega)).2
        exact V.skip (ih (by omega)) hon rfl (hplace (by omega)) (hall i (by omega))
    exact .ret (hskip _ (Nat.le_refl _))
  · dsimp only
    rw [V.sp_eq (V.issue _ h)]
    refine .forRange (I := fun i => P (k + i) b) (V.issue _ h) fun i hi f' h' => ?_
    obtain ⟨hadd, hon⟩ := V.flashpg_onChip hfp hch hlun hi
    rw [hadd, hon.page]
    split
    · exact V.copy h' hon rfl (hplace hi) ‹_›
    · exact .ret (V.skip h' hon rfl (hplace hi) ‹_›)

/-! ### One block -/

theorem Visits.cleanOneBlockPg
    (h : P (((fp * sp.nchs + ch) * sp.lunsPerCh + lun) * sp.pgsPerFlashpg)
      (blocksAt sp fp (ch * sp.lunsPerCh + lun)) f)
    (hfp : fp < sp.flashpgsPerBlk) (hch : ch < sp.nchs) (hlun : lun < sp.lunsPerCh) :
    Spec S (cleanOneBlockPg f v fp ch lun)
      (P (((fp * sp.nchs + ch) * sp.lunsPerCh + (lun + 1)) * sp.pgsPerFlashpg)
        (blocksAt sp fp (ch * sp.lunsPerCh + (lun + 1)))) := by
  have g := V.geometry
  have hppa : Ppa.ofFields (fp * sp.pgsPerFlashpg) v 0 lun ch =
      pageAt v ch lun (fp * sp.pgsPerFlashpg) :=
    ofFields_eq g V.lt hch hlun (g.flashpg_lt hfp g.flashpg_pos)
  have hk : ((fp * sp.nchs + ch) * sp.lunsPerCh + (lun + 1)) * sp.pgsPerFlashpg =
      ((fp * sp.nchs + ch) * sp.lunsPerCh + lun) * sp.pgsPerFlashpg + sp.pgsPerFlashpg := by
    ring
  unfold Nvmev.cleanOneBlockPg
  rw [V.sp_eq h]
  dsimp only
  rw [hppa, hk]
  refine (V.cleanOneFlashpg h hfp hch hlun rfl ?_).bind fun f₁ h₁ => ?_
  · unfold blocksAt
    split <;> omega
  have hsp := V.sp_eq h₁
  rw [hsp]
  have hlast : fp = sp.flashpgsPerBlk - 1 ↔ fp + 1 = sp.flashpgsPerBlk := by omega
  split
  · rename_i hl
    have hl := hlast.mp hl
    have hon : OnChip f₁.sp (pageAt v ch lun (fp * sp.pgsPerFlashpg)) := by
      rw [hsp]
      exact pageAt_onChip V.lt hch hlun (g.flashpg_lt hfp g.flashpg_pos)
    rw [(V.nand h₁).markBlockFree hon (hsp.symm ▸ g), ok_bind]
    unfold blocksAt at h₁ ⊢
    rw [if_pos hl] at h₁ ⊢
    exact .ret (V.issue _ (V.free h₁ hch hlun rfl fun pg hpg => g.gcOrder_lt hpg hl))
  · rename_i hl
    unfold blocksAt at h₁ ⊢
    rw [if_neg (mt hlast.mpr hl)] at h₁ ⊢
    exact .ret h₁

/-! ### The line -/

/-- The loops of `do_gc`. -/
theorem Visits.loops (h : P 0 0 f) :
    Spec S (forRange f.sp.flashpgsPerBlk f fun f fp => forRange f.sp.nchs f fun f ch =>
      forRange f.sp.lunsPerCh f fun f lun => Nvmev.cleanOneBlockPg f v fp ch lun)
      (P sp.pgsPerLine (sp.nchs * sp.lunsPerCh)) := by
  have g := V.geometry
  have hend : sp.pgsPerLine = sp.flashpgsPerBlk * sp.nchs * sp.lunsPerCh * sp.pgsPerFlashpg := by
    rw [g.pgsPerLine, g.flashpg]
    ring
  have hpos : 0 < sp.flashpgsPerBlk := by
    have hlt := g.pos
    rw [hend] at hlt
    exact Nat.pos_of_mul_pos_right (Nat.pos_of_mul_pos_right (Nat.pos_of_mul_pos_right hlt))
  rw [V.sp_eq h]
  have hrun := Spec.forRange (S := S) (n := sp.flashpgsPerBlk) (s := f)
    (f := fun f fp => forRange f.sp.nchs f fun f ch =>
      forRange f.sp.lunsPerCh f fun f lun => Nvmev.cleanOneBlockPg f v fp ch lun)
    (I := fun fp => P (fp * sp.nchs * sp.lunsPerCh * sp.pgsPerFlashpg)
      (if fp = sp.flashpgsPerBlk then sp.nchs * sp.lunsPerCh else 0)) ?_ ?_
  · refine hrun.mono fun f' h' => ?_
    rwa [if_pos rfl, ← hend] at h'
  · rw [if_neg (by omega)]
    simpa using h
  intro fp hfp f₁ h₁
  rw [if_neg (by omega)] at h₁
  rw [V.sp_eq h₁]
  have hrun := Spec.forRange (S := S) (n := sp.nchs) (s := f₁)
    (f := fun f ch => forRange f.sp.lunsPerCh f fun f lun => Nvmev.cleanOneBlockPg f v fp ch lun)
    (I := fun ch => P ((fp * sp.nchs + ch) * sp.lunsPerCh * sp.pgsPerFlashpg)
      (blocksAt sp fp (ch * sp.lunsPerCh))) ?_ ?_
  · refine hrun.mono fun f' h' => ?_
    rwa [show (fp * sp.nchs + sp.nchs) = (fp + 1) * sp.nchs by ring] at h'
  · unfold blocksAt
    simpa using h₁
  intro ch hch f₂ h₂
  rw [V.sp_eq h₂]
  have hrun := Spec.forRange (S := S) (n := sp.lunsPerCh) (s := f₂)
    (f := fun f lun => Nvmev.cleanOneBlockPg f v fp ch lun)
    (I := fun lun => P (((fp * sp.nchs + ch) * sp.lunsPerCh + lun) * sp.pgsPerFlashpg)
      (blocksAt sp fp (ch * sp.lunsPerCh + lun))) h₂ fun lun hlun f₃ h₃ =>
        V.cleanOneBlockPg h₃ hfp hch hlun
  refine hrun.mono fun f' h' => ?_
  rwa [show (fp * sp.nchs + ch) * sp.lunsPerCh + sp.lunsPerCh =
      (fp * sp.nchs + (ch + 1)) * sp.lunsPerCh by ring,
    show ch * sp.lunsPerCh + sp.lunsPerCh = (ch + 1) * sp.lunsPerCh by ring] at h'

end Loops

end Nvmev
