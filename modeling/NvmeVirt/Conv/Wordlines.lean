import Mathlib.Data.List.Count
import NvmeVirt.Conv.Runs

/-!
# The pages of one line

`get_new_page` and `advance_write_pointer` from a fresh line on, whatever the rest of the FTL does in
between (`Allocates`). Until the last page of the line the pointer stays on the line; after it the
line goes to one of the lists and the pointer to a free line. By then each page of the line was
returned once, one word line after the other (`write_pointer_enumerates`).
-/

namespace Nvmev

open Function Outcome CInt

/-- `g` has the geometry and the write pointer of `f`. -/
def SamePointer (io : IoType) (f g : ConvFtl) : Prop := g.sp = f.sp ∧ g.getWp io = f.getWp io

/-- Pages are returned from `f` on, each at the write pointer, which is then advanced. In between
the FTL may change but for the pointer. -/
inductive Allocates (io : IoType) (f : ConvFtl) : List Ppa → ConvFtl → Prop
  | start : Allocates io f [] f
  | step {ps : List Ppa} {g g' h : ConvFtl} {p : Ppa} (hrun : Allocates io f ps g)
      (hsame : SamePointer io g g') (hnew : getNewPage g' io = .ok p)
      (hadv : advanceWritePointer g' io = .ok h) : Allocates io f (ps ++ [p]) h

/-- Only the write pointer moves, on its line. -/
def StaysOn (io : IoType) (line : Nat) (f h : ConvFtl) : Prop :=
  ∃ wp, wp.curline = line ∧ h = f.setWp wp io

/-- The line goes to the full list or the queue of victim lines, and the pointer to the first page
of a free line. -/
def HandsOff (io : IoType) (line : Nat) (f h : ConvFtl) : Prop :=
  ∃ lm next lm', (lm = f.lm.addFull line ∨ lm = f.lm.addVictim line) ∧
    lm.getNextFreeLine = some (next, lm') ∧
    h = { f with lm := lm' }.setWp { curline := next, blk := next } io

/-- The counters of a line that is written to its end allow for the hand-off, and there is a free
line. -/
structure CanHandOff (f : ConvFtl) (line : Nat) : Prop where
  counters : (f.lm.lines line).vpc = f.sp.pgsPerLine ∧ (f.lm.lines line).ipc = 0 ∨
    (f.lm.lines line).vpc < f.sp.pgsPerLine ∧ 0 < (f.lm.lines line).ipc ∧
      (f.lm.lines line).ipc < 2 ^ 31
  int : f.sp.pgsPerLine < 2 ^ 31
  free : ∃ next rest, f.lm.freeLineList = next :: rest ∧ next < f.sp.blksPerPl

/-- Two pages are on one word line of one die. -/
structure SameWordline (sp : SsdParams) (p q : Ppa) : Prop where
  ch : p.ch = q.ch
  lun : p.lun = q.lun
  blk : p.blk = q.blk
  wordline : p.pg / sp.pgsPerOneshotpg = q.pg / sp.pgsPerOneshotpg

/-- The pages `ps` are the pages of the line, each once and one word line after the other. -/
structure Enumerates (f : ConvFtl) (line : Nat) (ps : List Ppa) : Prop where
  once : ∀ ch < f.sp.nchs, ∀ lun < f.sp.lunsPerCh, ∀ pg < f.sp.pgsPerBlk,
    ps.count (pageAt line ch lun pg) = 1
  only : ∀ p ∈ ps, ∃ ch < f.sp.nchs, ∃ lun < f.sp.lunsPerCh, ∃ pg < f.sp.pgsPerBlk,
    p = pageAt line ch lun pg
  runs : ∀ i j (hi : i < ps.length) (hj : j < ps.length),
    i / f.sp.pgsPerOneshotpg = j / f.sp.pgsPerOneshotpg → SameWordline f.sp ps[i] ps[j]
  /-- `last_pg_in_wordline` holds of the last page of each word line. -/
  last : ∀ i (hi : i < ps.length), lastPgInWordline f ps[i] = true ↔
    ∀ j (hj : j < ps.length), SameWordline f.sp ps[j] ps[i] → j ≤ i

/-- The steps from `f` on return the pages of the line. The pointer stays on the line before the
last of them, and is handed off after it. -/
structure WritesLine (io : IoType) (f : ConvFtl) (line : Nat) : Prop where
  returns : ∀ ps g g', Allocates io f ps g → SamePointer io g g' → ps.length < f.sp.pgsPerLine →
    ∃ p, getNewPage g' io = .ok p
  stays : ∀ ps g g', Allocates io f ps g → SamePointer io g g' → ps.length + 1 < f.sp.pgsPerLine →
    Total (advanceWritePointer g' io) (StaysOn io line g')
  handsOff : ∀ ps g g', Allocates io f ps g → SamePointer io g g' →
    ps.length + 1 = f.sp.pgsPerLine →
    Spec (CanHandOff g' line) (advanceWritePointer g' io) (HandsOff io line g')
  pages : ∀ ps g, Allocates io f ps g → ps.length = f.sp.pgsPerLine → Enumerates f line ps

section

variable {f g h : ConvFtl} {io : IoType} {line : Nat} {ps : List Ppa} {sp : SsdParams}

/-! ## One step -/

theorem retireLine_spec {S : Prop} (hS : S → CanHandOff f line) :
    Spec S (retireLine f line) fun h =>
      ∃ lm, (lm = f.lm.addFull line ∨ lm = f.lm.addVictim line) ∧ h = { f with lm } := by
  unfold retireLine nvmevAssert
  dsimp only
  split
  · rename_i hfull
    refine .bind (.ensure fun hs => ?_) fun _ _ => .ret ⟨_, .inl rfl, rfl⟩
    obtain ⟨-, hipc⟩ | ⟨hvpc, -⟩ := (hS hs).counters
    · exact hipc
    · have hint := (hS hs).int
      rw [ulong_of_lt (by omega)] at hfull
      omega
  · rename_i hnot
    have hvictim (hs : S) : (f.lm.lines line).vpc < f.sp.pgsPerLine ∧ 0 < (f.lm.lines line).ipc ∧
        (f.lm.lines line).ipc < 2 ^ 31 := by
      have hint := (hS hs).int
      refine (hS hs).counters.resolve_left fun hfull => hnot ?_
      rw [ulong_of_lt (by omega), hfull.1]
    refine .bind (.ensure fun hs => ?_) fun _ _ => .bind (.ensure fun hs => ?_) fun _ _ =>
      .ret ⟨_, .inr rfl, rfl⟩
    · have hint := (hS hs).int
      have := (hvictim hs).1
      omega
    · exact (hvictim hs).2

/-- The last step on a line. -/
theorem nextLine_handsOff (hin : InLine f.sp (f.getWp io)) (hcur : (f.getWp io).curline = line) :
    Spec (CanHandOff f line) (nextLine f io) (HandsOff io line f) := by
  unfold nextLine checkAddr nvmevAssert
  dsimp only
  rw [hcur]
  refine (retireLine_spec id).bind ?_
  rintro f₁ ⟨lm, hlm, rfl⟩
  refine .bind (.ensure fun _ => by rw [hin.blk]; exact hin.curline) fun _ _ => ?_
  have hlist : lm.freeLineList = f.lm.freeLineList := by rcases hlm with rfl | rfl <;> rfl
  dsimp only
  cases hfree : lm.freeLineList with
  | nil =>
    rw [show lm.getNextFreeLine = none by unfold LineMgmt.getNextFreeLine; rw [hfree]]
    refine .error fun hs => ?_
    obtain ⟨next, rest, hnext, -⟩ := hs.free
    rw [← hlist, hfree] at hnext
    cases hnext
  | cons next rest =>
    obtain ⟨lm', hnext⟩ : ∃ lm', lm.getNextFreeLine = some (next, lm') := by
      unfold LineMgmt.getNextFreeLine
      rw [hfree]
      exact ⟨_, rfl⟩
    rw [hnext]
    refine .bind (.ensure fun hs => ?_) fun _ _ => .bind (.ensure fun _ => hin.pl) fun _ hpl => ?_
    · obtain ⟨next', rest', hnext', hlt⟩ := hs.free
      rw [← hlist, hfree] at hnext'
      cases hnext'
      exact hlt
    · exact .ret ⟨lm, next, lm', hlm, hnext, by rw [hpl]⟩

theorem HandsOff.sp_eq (hoff : HandsOff io line f h) : h.sp = f.sp := by
  obtain ⟨lm, next, lm', -, -, rfl⟩ := hoff
  exact (setWp_eq _ _ io).1

/-! ## The places of the pages -/

/-- The page number `i` of `ps` has the place `i` in the order of writing. -/
def InOrder (sp : SsdParams) (line : Nat) (ps : List Ppa) : Prop :=
  ∀ i (hi : i < ps.length), ∃ ch < sp.nchs, ∃ lun < sp.lunsPerCh, ∃ pg < sp.pgsPerBlk,
    ps[i] = pageAt line ch lun pg ∧ order sp ch lun pg = i

theorem InOrder.snoc (hps : InOrder sp line ps) {wp : WritePointer} (hin : InLine sp wp)
    (hcur : wp.curline = line) (hplace : wp.place sp = ps.length) :
    InOrder sp line (ps ++ [wp.page]) := by
  intro i hi
  rw [List.length_append, List.length_singleton] at hi
  by_cases hlt : i < ps.length
  · rw [List.getElem_append_left hlt]
    exact hps i hlt
  · obtain rfl : i = ps.length := by omega
    rw [List.getElem_concat_length rfl]
    exact ⟨wp.ch, hin.ch, wp.lun, hin.lun, wp.pg, hin.pg, by rw [WritePointer.page, hcur], hplace⟩

/-- After `ps` the pointer is at the next place of the line. -/
theorem allocates_inOrder (hg : LineGeometry f.sp) (hline : line < f.sp.blksPerPl)
    (hfresh : f.getWp io = { curline := line, blk := line }) (hrun : Allocates io f ps h)
    (hlen : ps.length ≤ f.sp.pgsPerLine) :
    h.sp = f.sp ∧ InOrder f.sp line ps ∧ (ps.length < f.sp.pgsPerLine →
      InLine f.sp (h.getWp io) ∧ (h.getWp io).curline = line ∧
        (h.getWp io).place f.sp = ps.length) := by
  induction hrun with
  | start =>
    refine ⟨rfl, fun i hi => absurd hi (Nat.not_lt_zero i), fun _ => ?_⟩
    rw [hfresh]
    exact ⟨⟨hline, rfl, rfl, hg.nchs, hg.luns, hg.blk⟩, rfl, by simp [WritePointer.place, order]⟩
  | @step ps g g' h p hrun hsame hnew hadv ih =>
    rw [List.length_append, List.length_singleton] at hlen ⊢
    obtain ⟨hsp, hps, hat⟩ := ih (by omega)
    obtain ⟨hin, hcur, hplace⟩ := hat (by omega)
    have hsp' : g'.sp = f.sp := hsame.1.trans hsp
    rw [← hsame.2] at hin hcur hplace
    rw [← hsp'] at hin hg
    rw [hg.getNewPage hin] at hnew
    cases hnew
    have hmoves := hg.advanceWritePointer hin
    rw [hadv] at hmoves
    generalize hx : (Except.ok h : Except Bug ConvFtl) = x at hmoves
    rw [hsp'] at hin
    refine ⟨?_, hps.snoc hin hcur hplace, fun hlt => ?_⟩
    · cases hmoves with
      | next hwp hwpcur hwpplace =>
        cases hx
        exact (setWp_eq g' _ io).1.trans hsp'
      | last hlast =>
        rw [← hsp'] at hin
        exact ((nextLine_handsOff hin hcur).post h hx.symm).sp_eq.trans hsp'
    · cases hmoves with
      | next hwp hwpcur hwpplace =>
        cases hx
        rw [getWp_setWp_self, ← hsp']
        refine ⟨hwp, hwpcur.trans hcur, hwpplace.trans ?_⟩
        rw [hsp', hplace]
      | last hlast =>
        rw [hsp', hplace] at hlast
        omega

/-! ## The whole line -/

/-- The word line of a page is its place without the last digit. -/
theorem order_div (ho : 0 < sp.pgsPerOneshotpg) (ch lun pg : Nat) :
    order sp ch lun pg / sp.pgsPerOneshotpg =
      (pg / sp.pgsPerOneshotpg * sp.lunsPerCh + lun) * sp.nchs + ch := by
  unfold order
  rw [Nat.mul_comm, Nat.mul_add_div ho, Nat.div_eq_of_lt (Nat.mod_lt _ ho), Nat.add_zero]

theorem order_mod (ch lun pg : Nat) :
    order sp ch lun pg % sp.pgsPerOneshotpg = pg % sp.pgsPerOneshotpg := by
  unfold order
  rw [Nat.mul_add_mod', Nat.mod_mod]

theorem InOrder.sameWordline_iff (hg : LineGeometry sp) (hps : InOrder sp line ps) {i j : Nat}
    (hi : i < ps.length) (hj : j < ps.length) :
    SameWordline sp ps[i] ps[j] ↔ i / sp.pgsPerOneshotpg = j / sp.pgsPerOneshotpg := by
  obtain ⟨ch, hch, lun, hlun, pg, -, hpi, horder⟩ := hps i hi
  obtain ⟨ch', hch', lun', hlun', pg', -, hpj, horder'⟩ := hps j hj
  have hdiv := order_div hg.oneshot ch lun pg
  have hdiv' := order_div hg.oneshot ch' lun' pg'
  rw [horder] at hdiv
  rw [horder'] at hdiv'
  rw [hpi, hpj, hdiv, hdiv']
  constructor
  · rintro ⟨hc, hl, -, hw⟩
    simp only [pageAt] at hc hl hw
    rw [hc, hl, hw]
  · intro he
    obtain ⟨hmid, hc⟩ := radix_inj hch hch' he
    obtain ⟨hw, hl⟩ := radix_inj hlun hlun' hmid
    exact ⟨hc, hl, rfl, hw⟩

theorem InOrder.nodup (hps : InOrder sp line ps) : ps.Nodup := by
  rw [List.nodup_iff_injective_getElem]
  rintro ⟨i, hi⟩ ⟨j, hj⟩ heq
  obtain ⟨ch, -, lun, -, pg, -, hpi, horder⟩ := hps i hi
  obtain ⟨ch', -, lun', -, pg', -, hpj, horder'⟩ := hps j hj
  simp only [hpi, hpj] at heq
  obtain ⟨-, rfl, rfl, rfl⟩ := pageAt_inj heq
  simp [← horder, ← horder']

theorem InOrder.enumerates (hg : LineGeometry f.sp) (hps : InOrder f.sp line ps)
    (hlen : ps.length = f.sp.pgsPerLine) : Enumerates f line ps := by
  have ho := hg.oneshot
  refine ⟨fun ch hch lun hlun pg hpg => ?_, fun p hp => ?_, fun i j hi hj => ?_, fun i hi => ?_⟩
  · refine List.count_eq_one_of_mem hps.nodup ?_
    have hlt := hg.order_lt hch hlun hpg
    obtain ⟨ch', hch', lun', hlun', pg', -, hpage, horder⟩ := hps _ (hlen ▸ hlt)
    obtain ⟨rfl, rfl, rfl⟩ := hg.order_inj hch' hlun' hch hlun horder
    exact hpage ▸ List.getElem_mem _
  · obtain ⟨i, hi, rfl⟩ := List.getElem_of_mem hp
    obtain ⟨ch, hch, lun, hlun, pg, hpg, hpage, -⟩ := hps i hi
    exact ⟨ch, hch, lun, hlun, pg, hpg, hpage⟩
  · exact (hps.sameWordline_iff hg hi hj).mpr
  · have hmod : lastPgInWordline f ps[i] = true ↔ i % f.sp.pgsPerOneshotpg = f.sp.pgsPerOneshotpg - 1 := by
      obtain ⟨ch, -, lun, -, pg, -, hpage, horder⟩ := hps i hi
      rw [hpage, ← horder, order_mod]
      simp [lastPgInWordline, pageAt]
    have hi' := Nat.div_add_mod i f.sp.pgsPerOneshotpg
    have hlast := Nat.mod_lt i ho
    rw [hmod]
    constructor
    · intro hend j hj hsame
      have hdiv := (hps.sameWordline_iff hg hj hi).mp hsame
      have hj' := Nat.div_add_mod j f.sp.pgsPerOneshotpg
      have := Nat.mod_lt j ho
      rw [hdiv] at hj'
      omega
    · intro hmax
      -- the last place of the word line of `i`
      have hin : f.sp.pgsPerOneshotpg * (i / f.sp.pgsPerOneshotpg) + (f.sp.pgsPerOneshotpg - 1) <
          ps.length := by
        obtain ⟨n, hn⟩ := hg.dvd
        have hline : f.sp.pgsPerLine = f.sp.pgsPerOneshotpg * (f.sp.lunsPerCh * f.sp.nchs * n) := by
          rw [hg.pgsPerLine, hn]
          ring
        rw [hlen, hline] at hi ⊢
        have hq := (Nat.div_lt_iff_lt_mul ho).mpr (Nat.mul_comm _ _ ▸ hi)
        calc f.sp.pgsPerOneshotpg * (i / f.sp.pgsPerOneshotpg) + (f.sp.pgsPerOneshotpg - 1)
            < f.sp.pgsPerOneshotpg * (i / f.sp.pgsPerOneshotpg + 1) := by rw [Nat.mul_succ]; omega
          _ ≤ f.sp.pgsPerOneshotpg * (f.sp.lunsPerCh * f.sp.nchs * n) := Nat.mul_le_mul_left _ hq
      have hsame : (f.sp.pgsPerOneshotpg * (i / f.sp.pgsPerOneshotpg) + (f.sp.pgsPerOneshotpg - 1)) /
          f.sp.pgsPerOneshotpg = i / f.sp.pgsPerOneshotpg := by
        rw [Nat.mul_add_div ho, Nat.div_eq_of_lt (Nat.sub_lt ho Nat.one_pos), Nat.add_zero]
      have hle := hmax _ hin ((hps.sameWordline_iff hg hin hi).mpr hsame)
      omega

/-- The pointer before the next step on the line. -/
theorem allocates_next (hg : LineGeometry f.sp) (hline : line < f.sp.blksPerPl)
    (hfresh : f.getWp io = { curline := line, blk := line }) {g' : ConvFtl}
    (hrun : Allocates io f ps g) (hsame : SamePointer io g g') (hlt : ps.length < f.sp.pgsPerLine) :
    LineGeometry g'.sp ∧ InLine g'.sp (g'.getWp io) ∧ (g'.getWp io).curline = line ∧
      (g'.getWp io).place g'.sp = ps.length ∧ g'.sp = f.sp := by
  obtain ⟨hsp, -, hat⟩ := allocates_inOrder hg hline hfresh hrun (Nat.le_of_lt hlt)
  obtain ⟨hin, hcur, hplace⟩ := hat hlt
  have hsp' : g'.sp = f.sp := hsame.1.trans hsp
  rw [hsame.2, hsp']
  exact ⟨hg, hin, hcur, hplace, rfl⟩

end

end Nvmev
