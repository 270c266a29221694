import NvmeVirt.Conv.Visits

/-!
# A garbage collection

`do_gc` takes a victim line `v` out of the queue and copies its valid pages. A page that is passed is
stale: its logical page is mapped to its copy. `Collecting` is the invariant of the loops, after `k`
pages of the line and `b` of its blocks.
-/

namespace Nvmev

open CInt Function Outcome Tally

theorem gcWritePage_eq (f : ConvFtl) (oldPpa : Ppa) : gcWritePage f oldPpa = (do
    let lpn ← getRmapEnt f oldPpa
    nvmevAssert (lpn < f.sp.ttPgs) .gcWritePage
    let (newPpa, f) ← programPage f .gcIo lpn
    if lastPgInWordline f newPpa then
      pure (f.issue { type := .gcIo, cmd := .write, xferSize := f.sp.pgsz * f.sp.pgsPerOneshotpg
                      stime := 0, ppa := newPpa })
    else pure (f.issue { type := .gcIo, cmd := .nop, stime := 0, ppa := newPpa })) := by
  unfold gcWritePage programPage
  simp only [bind_assoc, pure_bind]

/-! ## The invariant of the loops -/

/-- The valid pages of the line `v` among the first `k` pages that `do_gc` passes. -/
def copied (f : ConvFtl) (v k : Nat) : Nat :=
  tally (linePages f.sp) fun i => (f.pages (pageAt v i.1 i.2.1 i.2.2)).status == .valid &&
    decide (gcOrder f.sp i.1 i.2.1 i.2.2 < k)

theorem copied_le (f : ConvFtl) (v k : Nat) : copied f v k ≤ lineCount f.sp f.pages .valid v := by
  unfold copied lineCount tally
  refine Finset.card_le_card fun i hi => ?_
  simp only [Finset.mem_filter, Bool.and_eq_true] at hi ⊢
  exact ⟨hi.1, hi.2.1⟩

theorem copied_zero (f : ConvFtl) (v : Nat) : copied f v 0 = 0 :=
  tally_eq_zero.mpr fun i _ => by simp

theorem copied_all {f : ConvFtl} (g : Geometry f.sp) (v : Nat) :
    copied f v f.sp.pgsPerLine = lineCount f.sp f.pages .valid v := by
  refine tally_congr fun i hi => ?_
  obtain ⟨h1, h2, h3⟩ := mem_linePages.mp hi
  rw [decide_eq_true (g.gcOrder_lt_line h1 h2 h3), Bool.and_true]

/-- One more page. -/
theorem copied_succ {f : ConvFtl} (g : Geometry f.sp) {q : Ppa} (hq : OnChip f.sp q) :
    copied f q.blk (gcOrder f.sp q.ch q.lun q.pg + 1) =
      copied f q.blk (gcOrder f.sp q.ch q.lun q.pg) + ((f.pages q).status == .valid).toNat := by
  have h := tally_lt_succ (linePages f.sp)
    (fun i => (f.pages (pageAt q.blk i.1 i.2.1 i.2.2)).status == .valid)
    (fun i => gcOrder f.sp i.1 i.2.1 i.2.2) (a := (q.ch, q.lun, q.pg))
    (mem_linePages.mpr ⟨hq.ch, hq.lun, hq.pg⟩) fun i hi he => by
      obtain ⟨h1, h2, -⟩ := mem_linePages.mp hi
      obtain ⟨e1, e2, e3⟩ := g.gcOrder_inj h1 h2 hq.ch hq.lun he
      exact Prod.ext e1 (Prod.ext e2 e3)
  simp only [← hq.eq_pageAt] at h
  exact h

/-- The blocks of the victim line that are free, the first `b`. -/
def freedUpTo (sp : SsdParams) (b ch lun : Nat) : Prop := ch * sp.lunsPerCh + lun < b

/-- A garbage collection of the line `v` that began in `f₀`, after `k` pages and `b` blocks. -/
structure Collecting (M : Prop) (f₀ : ConvFtl) (fill₀ : IoType → Nat) (v m : Nat)
    (written : Nat → Prop) (k b : Nat) (f : ConvFtl) (cls : Nat → LineClass) (fill : IoType → Nat) :
    Prop where
  ready : Ready f cls (freedUpTo f₀.sp b) fill
  victim : ∀ l < f₀.sp.blksPerPl, cls l = .collected ↔ l = v
  lt : v < f₀.sp.blksPerPl
  sp : f.sp = f₀.sp
  cp : f.cp = f₀.cp
  wfc : f.wfc = f₀.wfc
  /-- The pages that are not passed are as they were. -/
  kept : ∀ p, OnChip f₀.sp p → p.blk = v → k ≤ gcOrder f₀.sp p.ch p.lun p.pg → f.pages p = f₀.pages p
  space : space f fill + copied f₀ v k = space f₀ fill₀
  map : M → MapInv f m written (fun p => p.blk = v ∧ gcOrder f₀.sp p.ch p.lun p.pg < k) fun _ => False

section Steps

variable {S M : Prop} {f₀ f : ConvFtl} {fill₀ fill : IoType → Nat} {v m k b : Nat}
  {written : Nat → Prop} {cls : Nat → LineClass}

/-- `issued` is not part of the invariant. -/
theorem Collecting.issue (h : Collecting M f₀ fill₀ v m written k b f cls fill) (cmd : NandCmd) :
    Collecting M f₀ fill₀ v m written k b (f.issue cmd) cls fill := by
  unfold ConvFtl.issue
  split
  · exact ⟨h.ready.congr rfl rfl rfl rfl rfl rfl, h.victim, h.lt, h.sp, h.cp, h.wfc, h.kept, h.space,
      fun hM => (h.map hM).congr rfl rfl rfl rfl⟩
  · exact h

/-- The page of a write pointer is not in the victim line. -/
theorem Collecting.wp_ne (h : Collecting M f₀ fill₀ v m written k b f cls fill) (io : IoType) :
    (f.getWp io).page.blk ≠ v := by
  intro he
  have hin := h.ready.acc.wp.inLine io
  have hcls := (h.ready.acc.wp.current io _ hin.curline).mpr rfl
  change (f.getWp io).curline = v at he
  rw [he, (h.victim v h.lt).mpr rfl] at hcls
  cases io <;> cases hcls

variable (h : Collecting M f₀ fill₀ v m written k b f cls fill) {q : Ppa} (hq : OnChip f₀.sp q)
  (hv : q.blk = v) (hk : gcOrder f₀.sp q.ch q.lun q.pg = k)

include h hq hv hk

theorem Collecting.stale_succ (p : Ppa) (hp : OnChip f.sp p) :
    (p.blk = v ∧ gcOrder f₀.sp p.ch p.lun p.pg < k + 1) ↔
      (p.blk = v ∧ gcOrder f₀.sp p.ch p.lun p.pg < k) ∨ p = q := by
  have g : Geometry f₀.sp := h.sp ▸ h.ready.acc.geometry
  rw [h.sp] at hp
  constructor
  · rintro ⟨hblk, hlt⟩
    obtain hlt | he : gcOrder f₀.sp p.ch p.lun p.pg < k ∨ gcOrder f₀.sp p.ch p.lun p.pg = k := by omega
    · exact .inl ⟨hblk, hlt⟩
    · rw [← hk] at he
      obtain ⟨h1, h2, h3⟩ := g.gcOrder_inj hp.ch hp.lun hq.ch hq.lun he
      refine .inr ?_
      rw [hp.eq_pageAt, hq.eq_pageAt, h1, h2, h3, hblk, hv]
  · rintro (⟨hblk, hlt⟩ | rfl)
    · exact ⟨hblk, by omega⟩
    · exact ⟨hv, by omega⟩

/-- The count after one more page. -/
theorem Collecting.copied_succ :
    copied f₀ v (k + 1) = copied f₀ v k + ((f.pages q).status == .valid).toNat := by
  have hsucc := Nvmev.copied_succ (h.sp ▸ h.ready.acc.geometry) hq
  rwa [hv, hk, ← h.kept q hq hv (by omega)] at hsucc

/-- A page that is not valid is passed. -/
theorem Collecting.skip (hs : (f.pages q).status ≠ .valid) :
    Collecting M f₀ fill₀ v m written (k + 1) b f cls fill := by
  refine ⟨h.ready, h.victim, h.lt, h.sp, h.cp, h.wfc, fun p hp hpv hle => h.kept p hp hpv (by omega),
    ?_, fun hM => ?_⟩
  · rw [h.copied_succ hq hv hk, beq_false_of_ne hs]
    exact h.space
  · exact ((h.map hM).addStale hs).congrStale fun p hp => h.stale_succ hq hv hk p hp

/-- A valid page is copied. -/
theorem Collecting.gcWritePage (hs : (f.pages q).status = .valid)
    (hlt : S → f.rmap (pgidx f.sp q) < f.sp.ttPgs)
    (hvpc : S → (f.lm.lines (f.getWp .gcIo).curline).vpc < 2 ^ 31)
    (hend : S → fill .gcIo + 1 = f.sp.pgsPerLine →
      ((placed f .gcIo (f.rmap (pgidx f.sp q))).lm.lines (f.getWp .gcIo).curline).FitsInt ∧
        f.lm.freeLineList ≠ []) :
    Spec S (gcWritePage f q) fun f' => ∃ f₁ cmd cls' fill', f' = f₁.issue cmd ∧
      Programmed .gcIo (f.rmap (pgidx f.sp q)) f cls (freedUpTo f₀.sp b) fill (f.getWp .gcIo).page f₁
        cls' fill' ∧
      Turned (placed f .gcIo (f.rmap (pgidx f.sp q))) .gcIo f₁ ∧
      (f.lm.lines (f.getWp .gcIo).curline).vpc < 2 ^ 31 ∧
      Collecting M f₀ fill₀ v m written (k + 1) b f₁ cls' fill' := by
  have g := h.ready.acc.geometry
  have hq' : OnChip f.sp q := h.sp.symm ▸ hq
  have hstale : ¬ (q.blk = v ∧ gcOrder f₀.sp q.ch q.lun q.pg < k) := by omega
  rw [gcWritePage_eq, getRmapEnt_eq g hq', ok_bind]
  refine .bind (.ensure hlt) fun _ hlt => ?_
  refine (h.ready.programPage .gcIo (fun _ => hlt) hvpc hend).bind ?_
  rintro ⟨ppa, f₁⟩ ⟨cls₁, fill₁, hP, hturn, hsmall⟩
  dsimp only at hP hturn hsmall
  have hne : ppa.blk ≠ v := hP.ppa_eq ▸ h.wp_ne .gcIo
  have hcol : Collecting M f₀ fill₀ v m written (k + 1) b f₁ cls₁ fill₁ := by
    refine ⟨hP.ready, fun l hl => ?_, h.lt, hP.sp.trans h.sp, hP.cp.trans h.cp, hP.wfc.trans h.wfc,
      fun p hp hpv hle => ?_, ?_, fun hM => ?_⟩
    · rw [hP.collected l (by rw [h.sp]; exact hl), h.victim l hl]
    · rw [hP.pages, update_of_ne (by rintro rfl; exact hne hpv)]
      exact h.kept p hp hpv (by omega)
    · rw [h.copied_succ hq hv hk, hs, ← h.space, ← hP.space]
      exact (Nat.add_assoc _ _ _).symm.trans (Nat.add_right_comm _ _ _)
    · have hmap := h.map hM
      obtain ⟨hm, -, htbl⟩ := hmap.lpn q hq' hs hstale
      have hmapped := (hmap.mapped _ hm id).mp (by rw [htbl]; exact hq'.mapped)
      have hst : ¬ ((ppa.blk = v ∧ gcOrder f₀.sp ppa.ch ppa.lun ppa.pg < k) ∨ ppa = q) := by
        rintro (h | rfl)
        · exact hne h.1
        · exact hne hv
      have hnew := (hmap.openStale hq' hs hstale).program (fun l => by simp) hm h.ready hst hP
      -- the copied page was written before
      have hwritten : (fun l => written l ∨ l = f.rmap (pgidx f.sp q)) = written := by
        funext l
        refine propext ⟨?_, .inl⟩
        rintro (h | rfl)
        · exact h
        · exact hmapped
      rw [hwritten] at hnew
      refine hnew.congrStale fun p hp => ?_
      rw [hP.sp] at hp
      exact h.stale_succ hq hv hk p hp
  rw [hP.ppa_eq] at hP
  dsimp only
  split
  · exact .ret ⟨f₁, _, cls₁, fill₁, rfl, hP, hturn, hsmall, hcol⟩
  · exact .ret ⟨f₁, _, cls₁, fill₁, rfl, hP, hturn, hsmall, hcol⟩

omit hv hk in
/-- The logical page of a valid page that is not passed. -/
theorem Collecting.rmap_lt (hM : M) (hle : k ≤ gcOrder f₀.sp q.ch q.lun q.pg)
    (hs : (f.pages q).status = .valid) : f.rmap (pgidx f.sp q) < f.sp.ttPgs := by
  have hmap := h.map hM
  have hstale : ¬ (q.blk = v ∧ gcOrder f₀.sp q.ch q.lun q.pg < k) := by omega
  exact Nat.lt_of_lt_of_le (hmap.lpn q (h.sp.symm ▸ hq) hs hstale).1 hmap.le_ttPgs

end Steps

/-! ## A block becomes free -/

section Blocks

variable {S M : Prop} {f₀ f : ConvFtl} {fill₀ fill : IoType → Nat} {v m k b ch lun : Nat}
  {written : Nat → Prop} {cls : Nat → LineClass}

/-- Only the victim line depends on which blocks of it are free. -/
theorem isFree_freed {sp : SsdParams} {freed freed' : Nat → Nat → Prop} {fill : IoType → Nat}
    {c : LineClass} {ch lun pg : Nat} (hc : c ≠ .collected) :
    IsFree sp freed fill c ch lun pg ↔ IsFree sp freed' fill c ch lun pg := by
  cases c
  case collected => exact absurd rfl hc
  all_goals exact Iff.rfl

/-- A block whose pages are all passed becomes free. -/
theorem Collecting.markBlockFree (h : Collecting M f₀ fill₀ v m written k b f cls fill)
    (hch : ch < f₀.sp.nchs) (hlun : lun < f₀.sp.lunsPerCh) (hb : b = ch * f₀.sp.lunsPerCh + lun)
    (hall : ∀ pg < f₀.sp.pgsPerBlk, gcOrder f₀.sp ch lun pg < k) :
    Collecting M f₀ fill₀ v m written k (b + 1) (freedBlock f v ch lun) cls fill := by
  have hacc := h.ready.acc
  have hvictim := (h.victim v h.lt).mpr rfl
  have hline {l : Nat} (hl : l < f.sp.blksPerPl) (hc : cls l ≠ .collected) (ch' lun' pg : Nat) :
      (freedBlock f v ch lun).pages (pageAt l ch' lun' pg) = f.pages (pageAt l ch' lun' pg) := by
    refine erased_of_ne ?_
    rintro ⟨rfl, -, -⟩
    exact hc hvictim
  have hlineCount {l : Nat} (hl : l < f.sp.blksPerPl) (hc : cls l ≠ .collected) (s : PgStatus) :
      lineCount f.sp (freedBlock f v ch lun).pages s l = lineCount f.sp f.pages s l :=
    tally_congr fun i _ => by rw [hline hl hc]
  refine ⟨⟨⟨hacc.geometry, hacc.nand.freedBlock v, ?_, ⟨?_, ?_, hacc.counts.full, hacc.counts.victim⟩,
    hacc.lists, hacc.wp.congr rfl rfl rfl fun _ _ => Iff.rfl⟩, ?_⟩, h.victim, h.lt, h.sp, h.cp, h.wfc,
    fun p hp hpv hle => ?_, h.space, fun hM => ?_⟩
  · intro l hl ch' hch' lun' hlun' pg hpg
    have hiff := hacc.fillInv l hl ch' hch' lun' hlun' pg hpg
    by_cases hc : cls l = .collected
    · obtain rfl : l = v := (h.victim l (h.sp ▸ hl)).mp hc
      rw [hc] at hiff ⊢
      change _ ↔ ch' * f₀.sp.lunsPerCh + lun' < b at hiff
      change _ ↔ ch' * f₀.sp.lunsPerCh + lun' < b + 1
      by_cases he : ch' = ch ∧ lun' = lun
      · obtain ⟨rfl, rfl⟩ := he
        exact iff_of_true (erased_self hpg) (by omega)
      · have hne : ch' * f₀.sp.lunsPerCh + lun' ≠ b := by
          rw [hb]
          exact fun heq => he (radix_inj (h.sp ▸ hlun') hlun heq)
        rw [show (freedBlock f l ch lun).pages (pageAt l ch' lun' pg) = f.pages (pageAt l ch' lun' pg)
          from erased_of_ne fun hall => he hall.2, hiff]
        omega
    · rw [hline hl hc, hiff]
      exact isFree_freed hc
  · intro l hl hc
    exact (hacc.counts.vpc l hl hc).trans (hlineCount hl hc _).symm
  · intro l hl hc
    exact (hacc.counts.ipc l hl hc).trans (hlineCount hl hc _).symm
  · rintro (_ | _)
    · exact h.ready.place .userIo
    · exact h.ready.place .gcIo
  · have hne : ¬ (p.blk = v ∧ p.ch = ch ∧ p.lun = lun) := by
      rintro ⟨-, rfl, rfl⟩
      exact absurd (hall p.pg hp.pg) (Nat.not_lt_of_le hle)
    refine Eq.trans ?_ (h.kept p hp hpv hle)
    rw [hp.eq_pageAt]
    exact erased_of_ne hne
  · refine (h.map hM).setPages (fun p hp hst => ?_) rfl rfl rfl
    have hne : ¬ (p.blk = v ∧ p.ch = ch ∧ p.lun = lun) := by
      rintro ⟨hpv, rfl, rfl⟩
      exact hst ⟨hpv, hall p.pg (h.sp ▸ hp.pg)⟩
    rw [hp.eq_pageAt]
    exact erased_of_ne hne

/-- A page of the victim line is not free before its block is. -/
theorem Collecting.not_free (h : Collecting M f₀ fill₀ v m written k b f cls fill) {q : Ppa}
    (hq : OnChip f₀.sp q) (hv : q.blk = v) (hb : b ≤ q.ch * f₀.sp.lunsPerCh + q.lun) :
    (f.pages q).status ≠ .free := by
  intro hfree
  have hq' : OnChip f.sp q := h.sp.symm ▸ hq
  have hiff := h.ready.acc.fillInv q.blk hq'.blk q.ch hq'.ch q.lun hq'.lun q.pg hq'.pg
  rw [← hq.eq_pageAt, hv, (h.victim v h.lt).mpr rfl] at hiff
  exact absurd (hiff.mp hfree) (Nat.not_lt_of_le hb)

/-- The loops keep `Collecting` when there is room for the copies. -/
theorem Collecting.visits (hSM : S → M) (g : Geometry f₀.sp) (hv : v < f₀.sp.blksPerPl)
    (hsmall : S → f₀.sp.pgsPerLine < 2 ^ 31)
    (hroom : S → f₀.sp.pgsPerLine + 1 + lineCount f₀.sp f₀.pages .valid v < Nvmev.space f₀ fill₀) :
    Visits S f₀.sp v fun k b f => ∃ cls fill, Collecting M f₀ fill₀ v m written k b f cls fill where
  geometry := g
  lt := hv
  sp_eq := fun ⟨_, _, h⟩ => h.sp
  nand := fun ⟨_, _, h⟩ => h.ready.acc.nand
  issue := fun cmd ⟨cls, fill, h⟩ => ⟨cls, fill, h.issue cmd⟩
  notFree := fun ⟨_, _, h⟩ hq hv hb => h.not_free hq hv hb
  skip := fun ⟨cls, fill, h⟩ hq hv hk hs => ⟨cls, fill, h.skip hq hv hk hs⟩
  copy := by
    rintro k b f q ⟨cls, fill, h⟩ hq hv hk hs
    have hP : f.sp.pgsPerLine = f₀.sp.pgsPerLine := congrArg _ h.sp
    refine (h.gcWritePage hq hv hk hs (fun hS => h.rmap_lt hq (hSM hS) (Nat.le_of_eq hk.symm) hs)
      (fun hS => (h.ready.acc.fitsInt .gcIo (hP ▸ hsmall hS)).1) fun hS hend => ⟨?_, ?_⟩).mono ?_
    · have hfits := (h.ready.placed .gcIo (f.rmap (pgidx f.sp q))).fitsInt .gcIo (hP ▸ hsmall hS)
      rwa [getWp_placed] at hfits
    · have hcopied := copied_le f₀ v k
      have hspace := h.space
      have := hroom hS
      exact freeLine_of_space (by omega) hend
    · rintro f' ⟨f₁, cmd, cls', fill', rfl, -, -, -, h'⟩
      exact ⟨cls', fill', h'.issue cmd⟩
  free := fun ⟨cls, fill, h⟩ hch hlun hb hall => ⟨cls, fill, h.markBlockFree hch hlun hb hall⟩

end Blocks

/-! ## The whole collection -/

/-- The line `victim` is taken out of the queue. -/
def withoutVictim (f : ConvFtl) (victim : Nat) : ConvFtl :=
  { f with lm := { f.lm with
    victimLinePq := { f.lm.victimLinePq.pop victimLineCmpPri f.lm.pri with
      pos := update (f.lm.victimLinePq.pop victimLineCmpPri f.lm.pri).pos victim 0 }
    victimLineCnt := dec32 f.lm.victimLineCnt } }

theorem selectVictimLine_force {f : ConvFtl} {victim : Nat}
    (h : f.lm.victimLinePq.peek = some victim) :
    selectVictimLine f true = some (victim, withoutVictim f victim) := by
  unfold selectVictimLine
  rw [h]
  rfl

/-- The state in which the loops of `do_gc` begin. -/
def collectionStart (f : ConvFtl) (victim : Nat) : ConvFtl :=
  { withoutVictim f victim with wfc := { f.wfc with creditsToRefill := (f.lm.lines victim).ipc } }

theorem doGc_eq {f : ConvFtl} {victim : Nat} (h : f.lm.victimLinePq.peek = some victim) :
    doGc f true = (do
      let f ← forRange f.sp.flashpgsPerBlk (collectionStart f victim) fun f flashpg =>
        forRange f.sp.nchs f fun f ch => forRange f.sp.lunsPerCh f fun f lun =>
          cleanOneBlockPg f victim flashpg ch lun
      pure (markLineFree f victim)) := by
  unfold doGc
  rw [selectVictimLine_force h]
  rfl

/-- The FTL between two pages of a write: no line is in a garbage collection. -/
structure Idle (M : Prop) (m : Nat) (written : Nat → Prop) (f : ConvFtl) (cls : Nat → LineClass)
    (fill : IoType → Nat) : Prop where
  ready : Ready f cls (fun _ _ => False) fill
  quiet : ∀ l < f.sp.blksPerPl, cls l ≠ .collected
  map : M → MapInv f m written (fun _ => False) fun _ => False

section Collection

variable {S M : Prop} {f : ConvFtl} {fill : IoType → Nat} {v m : Nat} {written : Nat → Prop}
  {cls : Nat → LineClass}

/-- The victim line is out of the queue. -/
theorem Idle.collecting (h : Idle M m written f cls fill) {lm : LineMgmt} (hv : v < f.sp.blksPerPl)
    (hcls : cls v = .victim) (hlists : LineLists f.sp.blksPerPl lm (update cls v .collected))
    (hlines : lm.lines = f.lm.lines) (wfc : WriteFlowControl) :
    Collecting M { f with lm, wfc } fill v m written 0 0 { f with lm, wfc } (update cls v .collected)
      fill := by
  have hacc := h.ready.acc
  have hcur (io : IoType) (l : Nat) : update cls v .collected l = .current io ↔ cls l = .current io :=
    update_class_of_ne (by cases io <;> decide) (by rw [hcls]; cases io <;> decide)
  refine ⟨⟨⟨hacc.geometry, hacc.nand.congr rfl rfl rfl, ?_, ⟨?_, ?_, ?_, ?_⟩, hlists,
    hacc.wp.congr rfl rfl rfl hcur⟩, ?_⟩, fun l hl => ?_, hv, rfl, rfl, rfl, fun _ _ _ _ => rfl, ?_,
    fun hM => ?_⟩
  · intro l hl ch hch lun hlun pg hpg
    refine (hacc.fillInv l hl ch hch lun hlun pg hpg).trans ?_
    by_cases he : l = v
    · subst he
      rw [update_self, hcls]
      exact iff_of_false id (Nat.not_lt_zero _)
    · rw [update_of_ne he]
      exact isFree_freed (h.quiet l hl)
  · intro l hl hc
    change (lm.lines l).vpc = _
    rw [hlines]
    exact hacc.counts.vpc l hl (h.quiet l hl)
  · intro l hl hc
    change (lm.lines l).ipc = _
    rw [hlines]
    exact hacc.counts.ipc l hl (h.quiet l hl)
  · intro l hl hc
    change (lm.lines l).vpc = _
    rw [hlines]
    exact hacc.counts.full l hl ((update_class (by decide)).mp hc).2
  · intro l hl hc
    change 0 < (lm.lines l).ipc
    rw [hlines]
    exact hacc.counts.victim l hl ((update_class (by decide)).mp hc).2
  · rintro (_ | _)
    · exact h.ready.place .userIo
    · exact h.ready.place .gcIo
  · by_cases he : l = v
    · subst he
      rw [update_self]
      exact iff_of_true rfl rfl
    · rw [update_of_ne he]
      exact iff_of_false (h.quiet l hl) he
  · rw [copied_zero, Nat.add_zero]
  · refine MapInv.congr ((h.map hM).congrStale fun p _ => ?_) rfl rfl rfl rfl
    exact iff_of_false (fun hs => absurd hs.2 (Nat.not_lt_zero _)) id

/-- The head of the queue is a victim line, and its collection begins. -/
theorem Idle.victim (h : Idle M m written f cls fill) (hv : f.lm.victimLinePq.peek = some v) :
    v < f.sp.blksPerPl ∧ cls v = .victim ∧ Collecting M (collectionStart f v) fill v m written 0 0
      (collectionStart f v) (update cls v .collected) fill := by
  have hlists := h.ready.acc.lists
  have hsize : f.lm.victimLinePq.size ≠ 1 := by
    intro hone
    rw [show f.lm.victimLinePq.peek = none by simp [Pqueue.peek, hone]] at hv
    cases hv
  have hd : f.lm.victimLinePq.d 1 = v := Option.some.inj ((hlists.queue.peek hsize).1.symm.trans hv)
  obtain ⟨⟨hlt, hcls⟩, hpop⟩ := hlists.popVictim h.ready.acc.geometry.lines_lt hsize hd
  exact ⟨hlt, hcls, h.collecting hlt hcls hpop rfl _⟩

/-! The victim line is freed. -/

section MarkLineFree

theorem markLineFree_lines_self : (Nvmev.markLineFree f v).lm.lines v = { ipc := 0, vpc := 0 } :=
  update_self ..

theorem markLineFree_lines {l : Nat} (hl : l ≠ v) : (Nvmev.markLineFree f v).lm.lines l = f.lm.lines l :=
  update_of_ne hl ..

theorem FillInv.markLineFree {freed freed' : Nat → Nat → Prop} (h : FillInv f cls freed fill)
    (hv : ∀ ch < f.sp.nchs, ∀ lun < f.sp.lunsPerCh, ∀ pg < f.sp.pgsPerBlk,
      (f.pages (pageAt v ch lun pg)).status = .free)
    (hother : ∀ l < f.sp.blksPerPl, l ≠ v → cls l ≠ .collected) :
    FillInv (Nvmev.markLineFree f v) (update cls v .free) freed' fill := by
  intro l hl ch hch lun hlun pg hpg
  by_cases he : l = v
  · subst he
    rw [update_self]
    exact iff_of_true (hv ch hch lun hlun pg hpg) trivial
  · rw [update_of_ne he]
    exact (h l hl ch hch lun hlun pg hpg).trans (isFree_freed (hother l hl he))

theorem LineCounts.markLineFree (h : LineCounts f cls)
    (hv : ∀ s ≠ .free, lineCount f.sp f.pages s v = 0)
    (hother : ∀ l < f.sp.blksPerPl, l ≠ v → cls l ≠ .collected) :
    LineCounts (Nvmev.markLineFree f v) (update cls v .free) := by
  refine ⟨fun l hl _ => ?_, fun l hl _ => ?_, fun l hl hc => ?_, fun l hl hc => ?_⟩
  · by_cases he : l = v
    · subst he
      rw [markLineFree_lines_self]
      exact (hv .valid (by decide)).symm
    · rw [markLineFree_lines he]
      exact h.vpc l hl (hother l hl he)
  · by_cases he : l = v
    · subst he
      rw [markLineFree_lines_self]
      exact (hv .invalid (by decide)).symm
    · rw [markLineFree_lines he]
      exact h.ipc l hl (hother l hl he)
  · obtain ⟨he, hc⟩ := (update_class (by decide)).mp hc
    rw [markLineFree_lines he]
    exact h.full l hl hc
  · obtain ⟨he, hc⟩ := (update_class (by decide)).mp hc
    rw [markLineFree_lines he]
    exact h.victim l hl hc

theorem space_markLineFree (f : ConvFtl) (v : Nat) (fill : IoType → Nat) :
    Nvmev.space (markLineFree f v) fill = Nvmev.space f fill + f.sp.pgsPerLine := by
  unfold Nvmev.space
  change (f.lm.freeLineList ++ [v]).length * f.sp.pgsPerLine + _ + _ = _
  rw [List.length_append, Nat.add_mul, List.length_singleton, Nat.one_mul]
  change f.lm.freeLineList.length * f.sp.pgsPerLine + f.sp.pgsPerLine +
    (f.sp.pgsPerLine - fill .userIo) + (f.sp.pgsPerLine - fill .gcIo) = _
  omega

theorem Collecting.markLineFree {f₀ : ConvFtl} {fill₀ : IoType → Nat} {k : Nat}
    (h : Collecting M f₀ fill₀ v m written k (f₀.sp.nchs * f₀.sp.lunsPerCh) f cls fill) :
    Idle M m written (markLineFree f v) (update cls v .free) fill := by
  have hacc := h.ready.acc
  have g := hacc.geometry
  have hv : v < f.sp.blksPerPl := by
    rw [h.sp]
    exact h.lt
  have hcls := (h.victim v h.lt).mpr rfl
  have hfree : ∀ ch < f.sp.nchs, ∀ lun < f.sp.lunsPerCh, ∀ pg < f.sp.pgsPerBlk,
      (f.pages (pageAt v ch lun pg)).status = .free := by
    intro ch hch lun hlun pg hpg
    refine (hacc.fillInv v hv ch hch lun hlun pg hpg).mpr ?_
    rw [hcls]
    exact radix_lt (h.sp ▸ hch) (h.sp ▸ hlun)
  have hzero (s : PgStatus) (hs : s ≠ .free) : lineCount f.sp f.pages s v = 0 :=
    g.lineCount_other (g.lineCount_eq.mpr hfree) (Ne.symm hs)
  have hother (l : Nat) (hl : l < f.sp.blksPerPl) (he : l ≠ v) : cls l ≠ .collected := by
    rw [ne_eq, h.victim l (h.sp ▸ hl)]
    exact he
  have hcur (io : IoType) (l : Nat) : update cls v .free l = .current io ↔ cls l = .current io :=
    update_class_of_ne (by cases io <;> decide) (by rw [hcls]; cases io <;> decide)
  refine ⟨⟨⟨g, hacc.nand.congr rfl rfl rfl, hacc.fillInv.markLineFree hfree hother,
    hacc.counts.markLineFree hzero hother, ?_, hacc.wp.congr rfl rfl rfl hcur⟩, ?_⟩, fun l hl hc => ?_,
    fun hM => ?_⟩
  · refine (hacc.lists.setLine (by rw [hcls]; decide) _).addFree g.lines_lt hv ?_
    rw [hcls]
    exact ⟨by decide, by decide, by decide⟩
  · rintro (_ | _)
    · exact h.ready.place .userIo
    · exact h.ready.place .gcIo
  · obtain ⟨he, hc⟩ := (update_class (by decide)).mp hc
    exact hother l hl he hc
  · refine MapInv.congr ((h.map hM).dropStale fun p hp hst => ?_) rfl rfl rfl rfl
    rw [hp.eq_pageAt, hst.1, hfree _ hp.ch _ hp.lun _ hp.pg]
    decide

end MarkLineFree

end Collection

end Nvmev
