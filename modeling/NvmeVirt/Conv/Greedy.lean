import NvmeVirt.Conv.Runs

/-!
# The choice of the victim line

The queue of victim lines is a heap ordered by `vpc`, a field of the line that the FTL also changes
outside the queue. `greedy_victims`: after every command the heap is valid, and `select_victim_line`
takes a line with the fewest valid pages.
-/

namespace Nvmev

open CInt Function Outcome

/-- `victim` is taken out of the queue of `f`, which leaves `f'`: it has the smallest `vpc` of the
queued lines. -/
structure TakesMinimal (f : ConvFtl) (victim : Nat) (f' : ConvFtl) : Prop where
  queued : victim ∈ f.lm.victimLinePq.elements
  minimal : ∀ l ∈ f.lm.victimLinePq.elements, int32 (f.lm.lines victim).vpc ≤ int32 (f.lm.lines l).vpc
  removed : ∀ l, l ∈ f'.lm.victimLinePq.elements ↔ l ∈ f.lm.victimLinePq.elements ∧ l ≠ victim
  pos : f'.lm.victimLinePq.pos victim = 0
  lines : f'.lm.lines = f.lm.lines

/-- The queue of victim lines. -/
structure GreedyQueue (f : ConvFtl) : Prop where
  valid : f.lm.victimLinePq.isValid victimLineCmpPri f.lm.pri = true
  heap : ∀ j, 2 ≤ j → j < f.lm.victimLinePq.size →
    int32 (f.lm.lines (f.lm.victimLinePq.d (j / 2))).vpc ≤
      int32 (f.lm.lines (f.lm.victimLinePq.d j)).vpc
  index : ∀ j, 1 ≤ j → j < f.lm.victimLinePq.size →
    f.lm.victimLinePq.d j < f.sp.ttLines ∧ f.lm.victimLinePq.pos (f.lm.victimLinePq.d j) = j
  outside : ∀ l, l ∉ f.lm.victimLinePq.elements → f.lm.victimLinePq.pos l = 0
  room : f.lm.victimLinePq.elements.length ≤ f.sp.ttLines
  select : f.lm.victimLinePq.elements ≠ [] →
    ∃ victim f', selectVictimLine f true = some (victim, f') ∧ TakesMinimal f victim f'

section

variable {f : ConvFtl} {cls : Nat → LineClass} {freed : Nat → Nat → Prop} {fill : IoType → Nat}

theorem LineLists.pri_eq {n : Nat} {lm : LineMgmt} (h : LineLists n lm cls) {l : Nat}
    (hl : lm.victimLinePq.pos l ≠ 0) : (lm.pri l : Int) = int32 (lm.lines l).vpc := by
  have hsmall := h.small l hl
  rw [LineMgmt.pri, ulong_of_lt hsmall, int32_of_lt hsmall]

/-- The accounting says it, also in the middle of a command. -/
theorem Accounting.greedyQueue (h : Accounting f cls freed fill) : GreedyQueue f := by
  have hlists := h.lists
  have hwf := hlists.queue
  have hqueued {j : Nat} (hj : 1 ≤ j) (hjs : j < f.lm.victimLinePq.size) :
      f.lm.victimLinePq.pos (f.lm.victimLinePq.d j) = j ∧
        f.lm.victimLinePq.pos (f.lm.victimLinePq.d j) ≠ 0 := by
    have hpos := (hwf.filled.pos_d j hj hjs).1
    exact ⟨hpos, by omega⟩
  have hle {j k : Nat} (hj : 1 ≤ j) (hjs : j < f.lm.victimLinePq.size) (hk : 1 ≤ k)
      (hks : k < f.lm.victimLinePq.size)
      (hpri : f.lm.pri (f.lm.victimLinePq.d j) ≤ f.lm.pri (f.lm.victimLinePq.d k)) :
      int32 (f.lm.lines (f.lm.victimLinePq.d j)).vpc ≤
        int32 (f.lm.lines (f.lm.victimLinePq.d k)).vpc := by
    rw [← hlists.pri_eq (hqueued hj hjs).2, ← hlists.pri_eq (hqueued hk hks).2]
    exact Int.ofNat_le.mpr hpri
  refine ⟨hlists.ordered.subtreeIsValid (fun _ _ => rfl) _ (Nat.le_refl _), fun j hj hjs => ?_,
    fun j hj hjs => ⟨?_, (hqueued hj hjs).1⟩, fun l hl => ?_, ?_, fun hne => ?_⟩
  · exact hle (by omega) (by omega) (by omega) hjs (hlists.ordered j hj hjs)
  · rw [h.geometry.lines]
    exact ((hlists.mem_victim _).mp (hqueued hj hjs).2).1
  · by_contra hpos
    exact hl (hwf.mem_elements.mpr hpos)
  · have hsize := hwf.size_le (s := Finset.range f.sp.blksPerPl) fun l hl =>
      Finset.mem_range.mpr ((hlists.mem_victim l).mp hl).1
    rw [Finset.card_range] at hsize
    rw [Pqueue.length_elements, h.geometry.lines]
    omega
  · have hsize : f.lm.victimLinePq.size ≠ 1 := by
      intro hone
      refine hne (List.eq_nil_of_length_eq_zero ?_)
      rw [Pqueue.length_elements, hone]
    have hone := hwf.size
    obtain ⟨hpeek, hpos⟩ := hwf.peek hsize
    obtain ⟨hwf', -, hmem⟩ := hwf.pop victimLineCmpPri f.lm.pri hsize
    refine ⟨_, _, selectVictimLine_force hpeek, hwf.mem_elements.mpr (by omega), fun l hl => ?_,
      fun l => ?_, update_self .., rfl⟩
    · obtain ⟨hlt, hd⟩ := hwf.d_pos (hwf.mem_elements.mp hl)
      have hl1 : 1 ≤ f.lm.victimLinePq.pos l := Nat.one_le_iff_ne_zero.mpr (hwf.mem_elements.mp hl)
      have hhead := hle (Nat.le_refl 1) (by omega) hl1 hlt (hlists.ordered.head_le hl1 hlt)
      rwa [hd] at hhead
    · rw [hwf.mem_elements]
      exact hwf'.mem_elements.trans (hmem l)

end

variable {τ : Type}

/-- After every command the queue of victim lines of every partition is a valid heap, and the line with
the fewest valid pages is its first. -/
theorem greedy_victims (B : Nat → PerfModel τ) {cfg : SsdConfig} {pbaPcent nrParts size : Nat}
    {sp : SsdParams} (h : ConvGeometry cfg pbaPcent nrParts size sp) (raw : Nat → ConvFtl) (perf : τ)
    (events : List ConvEvent) (hon : ∀ e ∈ events, e.OnNs (nsSize size pbaPcent)) :
    Partial (convRun B cfg pbaPcent nrParts size raw perf events) fun s =>
      ∀ p < nrParts, GreedyQueue (s.device.ns.ftls p) := by
  refine (h.run (S := False) (M := False) (m := 0) id False.elim False.elim B raw perf hon
    False.elim).post.mono fun s hs p hp => ?_
  obtain ⟨-, cls, fill, hidle, -⟩ := hs.parts p hp
  exact hidle.ready.acc.greedyQueue

theorem greedy_victims_pro64 :
    Total (convRun (fun _ => .instant) .pro64 107 4 (2 ^ 22) (fun _ => .blank) ()
      [convWriteBlocks 0 7, convWriteBlocks 0 7]) fun s => ∀ p < 4,
      GreedyQueue (s.device.ns.ftls p) := by
  have hrun : Total (convRun (fun _ => .instant) .pro64 107 4 (2 ^ 22) (fun _ => .blank) ()
      [convWriteBlocks 0 7, convWriteBlocks 0 7]) fun s => s.writes.length = 2 := by decide +kernel
  obtain ⟨s, hs, -⟩ := hrun
  refine ⟨s, hs, greedy_victims (fun _ => .instant) convGeometry_pro64 _ () _ ?_ s hs⟩
  decide +kernel

end Nvmev
