import NvmeVirt.Conv.Runs

/-!
# A state with one line in the queue

`queued sp a b`: the line 0 of the user stream is empty; in the line 1 of the GC stream the first `a`
pages of each block are valid; in the line 2, in the queue of victim lines, the first `b` pages of each
block are valid and the others invalid; the other lines are free. The logical page of a valid page is
its index in the reverse map.
-/

namespace Nvmev

open CInt Function Outcome Tally

/-- The page with the index `i` in the reverse map. -/
def pageOf (sp : SsdParams) (i : Nat) : Ppa :=
  pageAt (i % sp.pgsPerLun / sp.pgsPerBlk) (i / sp.pgsPerLun / sp.lunsPerCh)
    (i / sp.pgsPerLun % sp.lunsPerCh) (i % sp.pgsPerLun % sp.pgsPerBlk)

/-- The status of the pages. -/
def queuedStatus (a b : Nat) (p : Ppa) : PgStatus :=
  if p.blk = 1 then if p.pg < a then .valid else .free
  else if p.blk = 2 then if p.pg < b then .valid else .invalid
  else .free

/-- The mapping table. -/
def queuedMaptbl (sp : SsdParams) (a b lpn : Nat) : Ppa :=
  let p := pageOf sp lpn
  if validPpa sp p = true ∧ queuedStatus a b p = .valid ∧ pgidx sp p = lpn then p else unmappedPpa

/-- The logical pages that are mapped. -/
def queuedWritten (sp : SsdParams) (a b lpn : Nat) : Prop := mappedPpa (queuedMaptbl sp a b lpn) = true

/-- The lines by class. -/
def queuedCls (l : Nat) : LineClass :=
  if l = 0 then .user else if l = 1 then .gc else if l = 2 then .victim else .free

/-- The pages written of the lines of the write pointers. -/
def queuedFill (sp : SsdParams) (a : Nat) : IoType → Nat
  | .userIo => 0
  | .gcIo => order sp 0 0 a

def queued (sp : SsdParams) (a b : Nat) : ConvFtl where
  sp := sp
  cp := convInitParams 107
  pages := fun p => { status := queuedStatus a b p, nsecs := sp.secsPerPg }
  blocks := fun p => {
    npgs := sp.pgsPerBlk
    ipc := if p.blk = 2 then sp.pgsPerBlk - b else 0
    vpc := if p.blk = 1 then a else if p.blk = 2 then b else 0 }
  maptbl := queuedMaptbl sp a b
  rmap := id
  wp := { curline := 0, blk := 0 }
  gcWp := { curline := 1, blk := 1, pg := a }
  lm := {
    lines := fun l => {
      ipc := if l = 2 then sp.nchs * (sp.lunsPerCh * (sp.pgsPerBlk - b)) else 0
      vpc := sp.nchs * (sp.lunsPerCh * if l = 1 then a else if l = 2 then b else 0) }
    freeLineList := List.range' 3 (sp.blksPerPl - 3)
    victimLinePq := { size := 2, avail := sp.ttLines + 1, d := fun _ => 2, pos := fun l => if l = 2 then 1 else 0 }
    fullLineList := []
    ttLines := sp.ttLines
    freeLineCnt := sp.blksPerPl - 3
    victimLineCnt := 1
    fullLineCnt := 0 }
  wfc := { writeCredits := 0, creditsToRefill := 0 }

section

variable {sp : SsdParams} {a b : Nat}

theorem pageOf_pgidx (g : Geometry sp) {p : Ppa} (hp : OnChip sp p) : pageOf sp (pgidx sp p) = p := by
  have hlt := g.blk_mul_lt hp
  have hpos : 0 < sp.pgsPerLun := Nat.zero_lt_of_lt hlt
  have hblk : 0 < sp.pgsPerBlk := Nat.zero_lt_of_lt hp.pg
  have hlun : 0 < sp.lunsPerCh := Nat.zero_lt_of_lt hp.lun
  have hdiv : pgidx sp p / sp.pgsPerLun = p.ch * sp.lunsPerCh + p.lun := by
    rw [(g.pgidx_eq hp).1, Nat.mul_comm, Nat.mul_add_div hpos, Nat.div_eq_of_lt hlt, Nat.add_zero]
  have hmod : pgidx sp p % sp.pgsPerLun = p.blk * sp.pgsPerBlk + p.pg := by
    rw [(g.pgidx_eq hp).1, Nat.mul_comm, Nat.mul_add_mod, Nat.mod_eq_of_lt hlt]
  unfold pageOf
  rw [hdiv, hmod, Nat.mul_comm p.ch, Nat.mul_add_div hlun, Nat.mul_add_mod, Nat.div_eq_of_lt hp.lun,
    Nat.mod_eq_of_lt hp.lun, Nat.mul_comm p.blk, Nat.mul_add_div hblk, Nat.mul_add_mod,
    Nat.div_eq_of_lt hp.pg, Nat.mod_eq_of_lt hp.pg]
  exact hp.eq_pageAt.symm

/-- The pages of a line whose status is given by their place in the block. -/
theorem lineCount_of_pg {pages : Ppa → NandPage} {s : PgStatus} {l : Nat} {q : Nat → Bool}
    (h : ∀ ch lun, ∀ pg < sp.pgsPerBlk, ((pages (pageAt l ch lun pg)).status == s) = q pg) :
    lineCount sp pages s l = sp.nchs * (sp.lunsPerCh * tally (Finset.range sp.pgsPerBlk) q) := by
  have hcongr : lineCount sp pages s l = tally (linePages sp) fun i => q i.2.2 :=
    tally_congr fun i hi => h _ _ _ (mem_linePages.mp hi).2.2
  rw [hcongr, linePages, tally_product_snd _ _ fun i : Nat × Nat => q i.2, tally_product_snd,
    Finset.card_range, Finset.card_range]

/-- The first pages of the blocks come first in the order of writing. -/
theorem order_prefix (pg : Nat) (ho : sp.pgsPerOneshotpg ∣ a) (hpos : 0 < sp.pgsPerOneshotpg)
    {ch lun : Nat} (hch : ch < sp.nchs) (hlun : lun < sp.lunsPerCh) :
    order sp 0 0 a ≤ order sp ch lun pg ↔ a ≤ pg := by
  obtain ⟨n, rfl⟩ := ho
  have hstart : order sp 0 0 (sp.pgsPerOneshotpg * n) =
      n * sp.lunsPerCh * sp.nchs * sp.pgsPerOneshotpg := by
    unfold order
    rw [Nat.mul_div_cancel_left n hpos, Nat.mul_mod_right]
    ring
  rw [hstart]
  unfold order
  constructor
  · intro hle
    by_contra hlt
    have hdiv : pg / sp.pgsPerOneshotpg < n := by
      rw [Nat.div_lt_iff_lt_mul hpos, Nat.mul_comm]
      omega
    exact absurd (radix_lt (radix_lt (radix_lt hdiv hlun) hch) (Nat.mod_lt pg hpos))
      (Nat.not_lt_of_le hle)
  · intro hle
    have hdiv : n ≤ pg / sp.pgsPerOneshotpg := by
      rw [Nat.le_div_iff_mul_le hpos, Nat.mul_comm]
      exact hle
    calc n * sp.lunsPerCh * sp.nchs * sp.pgsPerOneshotpg
        ≤ pg / sp.pgsPerOneshotpg * sp.lunsPerCh * sp.nchs * sp.pgsPerOneshotpg := by gcongr
      _ ≤ _ := by
        refine le_trans ?_ (Nat.le_add_right _ _)
        gcongr
        exact le_trans (Nat.mul_le_mul_right _ (Nat.le_add_right _ _)) (Nat.le_add_right _ _)

/-! ## The invariants -/

theorem queuedStatus_valid (l ch lun pg : Nat) : (queuedStatus a b (pageAt l ch lun pg) == .valid) =
    decide (pg < if l = 1 then a else if l = 2 then b else 0) := by
  unfold queuedStatus
  dsimp only [pageAt]
  grind

theorem queuedStatus_invalid (l ch lun pg : Nat) : (queuedStatus a b (pageAt l ch lun pg) == .invalid) =
    (decide (l = 2) && !decide (pg < b)) := by
  unfold queuedStatus
  dsimp only [pageAt]
  grind

/-- The lines by class. -/
theorem queuedCls_cases (l : Nat) : (l = 0 ∧ queuedCls l = .user) ∨ (l = 1 ∧ queuedCls l = .gc) ∨
    (l = 2 ∧ queuedCls l = .victim) ∨ (3 ≤ l ∧ queuedCls l = .free) := by
  unfold queuedCls
  grind

section Idle

variable (g : Geometry sp) (ho : sp.pgsPerOneshotpg ∣ a) (ha : a < sp.pgsPerBlk) (hb : b < sp.pgsPerBlk)
  (hsmall : sp.nchs * (sp.lunsPerCh * b) < 2 ^ 31)

include ha hb in
/-- The valid pages of a block. -/
theorem queued_valid (l ch lun : Nat) :
    tally (Finset.range sp.pgsPerBlk) (fun pg => queuedStatus a b (pageAt l ch lun pg) == .valid) =
      if l = 1 then a else if l = 2 then b else 0 := by
  have hle : (if l = 1 then a else if l = 2 then b else 0) ≤ sp.pgsPerBlk := by
    split
    · omega
    · split <;> omega
  rw [tally_congr fun pg _ => queuedStatus_valid l ch lun pg]
  exact tally_range_lt hle

include hb in
/-- The invalid pages of a block. -/
theorem queued_invalid (l ch lun : Nat) :
    tally (Finset.range sp.pgsPerBlk) (fun pg => queuedStatus a b (pageAt l ch lun pg) == .invalid) =
      if l = 2 then sp.pgsPerBlk - b else 0 := by
  rw [tally_congr fun pg _ => queuedStatus_invalid l ch lun pg]
  by_cases hl : l = 2
  · rw [if_pos hl, decide_eq_true hl]
    simp only [Bool.true_and]
    have hsum := tally_add_not (Finset.range sp.pgsPerBlk) fun pg => decide (pg < b)
    rw [tally_range_lt (Nat.le_of_lt hb), Finset.card_range] at hsum
    omega
  · rw [if_neg hl, decide_eq_false hl]
    exact tally_eq_zero.mpr fun pg _ => rfl

include g

include hsmall in
theorem queued_lists : LineLists sp.blksPerPl (queued sp a b).lm queuedCls := by
  have hfive := g.five
  have hpos (l : Nat) : (if l = 2 then 1 else 0) ≠ 0 ↔ l = 2 := by
    split <;> simp [*]
  refine ⟨List.nodup_range', fun l => ?_, (List.length_range' ..).symm, List.nodup_nil, fun l => ?_, rfl,
    ⟨Nat.le_succ 1, ⟨fun j hj hjs => ?_, fun l _ hl => ?_⟩⟩, fun l => ?_, rfl, fun j hj hjs => ?_,
    fun l hl => ?_⟩
  · change l ∈ List.range' 3 (sp.blksPerPl - 3) ↔ _
    rw [List.mem_range'_1]
    obtain ⟨h, hc⟩ | ⟨h, hc⟩ | ⟨h, hc⟩ | ⟨h, hc⟩ := queuedCls_cases l <;> rw [hc] <;> simp <;> omega
  · refine iff_of_false List.not_mem_nil fun hf => ?_
    obtain ⟨-, hc⟩ | ⟨-, hc⟩ | ⟨-, hc⟩ | ⟨-, hc⟩ := queuedCls_cases l <;> cases hc.symm.trans hf.2
  · change j < 2 at hjs
    obtain rfl : j = 1 := by omega
    exact ⟨rfl, id⟩
  · obtain rfl := (hpos l).mp hl
    exact ⟨Nat.lt_succ_self 1, rfl⟩
  · refine (hpos l).trans ?_
    obtain ⟨h, hc⟩ | ⟨h, hc⟩ | ⟨h, hc⟩ | ⟨h, hc⟩ := queuedCls_cases l <;> rw [hc] <;> simp <;> omega
  · change j < 2 at hjs
    omega
  · obtain rfl := (hpos l).mp hl
    exact hsmall

theorem queued_free : (queued sp a b).lm.freeLineList ≠ [] := by
  have hfive := g.five
  refine List.ne_nil_of_length_pos ?_
  change 0 < (List.range' 3 (sp.blksPerPl - 3)).length
  rw [List.length_range']
  omega

theorem queued_map : MapInv (queued sp a b) sp.ttPgs (queuedWritten sp a b) (fun _ => False)
    fun _ => False := by
  have hmaptbl {lpn : Nat} (hm : mappedPpa (queuedMaptbl sp a b lpn) = true) :
      OnChip sp (pageOf sp lpn) ∧ queuedStatus a b (pageOf sp lpn) = .valid ∧
        pgidx sp (pageOf sp lpn) = lpn ∧ queuedMaptbl sp a b lpn = pageOf sp lpn := by
    unfold queuedMaptbl at hm ⊢
    dsimp only at hm ⊢
    split at hm
    · rename_i h
      exact ⟨onChip_of_validPpa g h.1, h.2.1, h.2.2, if_pos h⟩
    · cases hm
  refine ⟨Nat.le_refl _, fun _ _ _ => Iff.rfl, fun lpn hlt _ hm => ?_, fun p hp hv _ => ?_⟩
  · obtain ⟨hon, hv, hidx, he⟩ := hmaptbl hm
    change OnChip sp (queuedMaptbl sp a b lpn) ∧ queuedStatus a b (queuedMaptbl sp a b lpn) = .valid ∧
      ¬ False ∧ pgidx sp (queuedMaptbl sp a b lpn) = lpn
    rw [he]
    exact ⟨hon, hv, id, hidx⟩
  · refine ⟨(g.pgidx_eq hp).2, id, ?_⟩
    change queuedMaptbl sp a b (pgidx sp p) = p
    unfold queuedMaptbl
    dsimp only
    rw [pageOf_pgidx g hp]
    exact if_pos ⟨hp.valid g, hv, rfl⟩

include ho

theorem queued_fillInv : FillInv (queued sp a b) queuedCls (fun _ _ => False) (queuedFill sp a) := by
  intro l _ ch hch lun hlun pg _
  change queuedStatus a b (pageAt l ch lun pg) = .free ↔ _
  have horder := order_prefix pg ho g.line.oneshot hch hlun
  obtain ⟨rfl, hc⟩ | ⟨rfl, hc⟩ | ⟨rfl, hc⟩ | ⟨hl, hc⟩ := queuedCls_cases l
  · rw [hc]
    exact iff_of_true rfl (Nat.zero_le _)
  · rw [hc]
    refine Iff.trans ?_ horder.symm
    change (if pg < a then PgStatus.valid else .free) = .free ↔ a ≤ pg
    split <;> simp <;> omega
  · rw [hc]
    refine iff_of_false ?_ id
    change ¬ (if pg < b then PgStatus.valid else .invalid) = .free
    split <;> decide
  · rw [hc]
    exact iff_of_true ((if_neg (show l ≠ 1 by omega)).trans (if_neg (show l ≠ 2 by omega))) trivial

include ha hb hsmall

theorem queued_idle : Idle True sp.ttPgs (queuedWritten sp a b) (queued sp a b) queuedCls
    (queuedFill sp a) := by
  have hpos := g.line
  have hfive := g.five
  refine ⟨⟨⟨g, ⟨fun _ => rfl, fun _ => rfl, fun l _ ch _ lun _ => ?_, fun l _ ch _ lun _ => ?_⟩,
    queued_fillInv g ho, ⟨fun l _ _ => ?_, fun l _ _ => ?_, fun l _ hc => ?_, fun l _ hc => ?_⟩,
    queued_lists g hsmall, ⟨?_, ?_⟩⟩, ?_⟩, fun l _ => ?_, fun _ => queued_map g⟩
  · exact (queued_valid ha hb l ch lun).symm
  · exact (queued_invalid hb l ch lun).symm
  · rw [lineCount_of_pg (q := fun pg => queuedStatus a b (pageAt l 0 0 pg) == .valid)
      fun _ _ _ _ => rfl]
    exact (congrArg (fun n => sp.nchs * (sp.lunsPerCh * n)) (queued_valid ha hb l 0 0)).symm
  · rw [lineCount_of_pg (q := fun pg => queuedStatus a b (pageAt l 0 0 pg) == .invalid)
      fun _ _ _ _ => rfl]
    refine Eq.trans ?_ (congrArg (fun n => sp.nchs * (sp.lunsPerCh * n)) (queued_invalid hb l 0 0)).symm
    change (if l = 2 then sp.nchs * (sp.lunsPerCh * (sp.pgsPerBlk - b)) else 0) = _
    split <;> simp
  · obtain ⟨-, h⟩ | ⟨-, h⟩ | ⟨-, h⟩ | ⟨-, h⟩ := queuedCls_cases l <;> cases h.symm.trans hc
  · change 0 < if l = 2 then sp.nchs * (sp.lunsPerCh * (sp.pgsPerBlk - b)) else 0
    obtain ⟨-, h⟩ | ⟨-, h⟩ | ⟨h2, -⟩ | ⟨-, h⟩ := queuedCls_cases l
    · cases h.symm.trans hc
    · cases h.symm.trans hc
    · rw [if_pos h2]
      exact Nat.mul_pos hpos.nchs (Nat.mul_pos hpos.luns (by omega))
    · cases h.symm.trans hc
  · rintro (_ | _)
    · exact ⟨by change 0 < sp.blksPerPl; omega, rfl, rfl, hpos.nchs, hpos.luns, hpos.blk⟩
    · exact ⟨by change 1 < sp.blksPerPl; omega, rfl, rfl, hpos.nchs, hpos.luns, ha⟩
  · rintro (_ | _) l _
    · change _ ↔ l = 0
      obtain ⟨h, hc⟩ | ⟨h, hc⟩ | ⟨h, hc⟩ | ⟨h, hc⟩ := queuedCls_cases l <;> rw [hc] <;>
        simp [LineClass.current] <;> omega
    · change _ ↔ l = 1
      obtain ⟨h, hc⟩ | ⟨h, hc⟩ | ⟨h, hc⟩ | ⟨h, hc⟩ := queuedCls_cases l <;> rw [hc] <;>
        simp [LineClass.current] <;> omega
  · rintro (_ | _)
    · change order sp 0 0 0 = 0
      simp [order]
    · rfl
  · obtain ⟨-, h⟩ | ⟨-, h⟩ | ⟨-, h⟩ | ⟨-, h⟩ := queuedCls_cases l <;> rw [h] <;> decide

end Idle

end

end Nvmev
