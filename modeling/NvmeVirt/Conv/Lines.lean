import NvmeVirt.Conv.Invariant

/-!
# The lists of lines

What the operations on the free list, the full list and the queue of victim lines do to `LineLists`:
a line leaves the list of its class, or goes from a class without a list to that of another one.
-/

namespace Nvmev

open CInt Function Outcome

/-- A class without a list. -/
def LineClass.OffList (c : LineClass) : Prop := c ≠ .free ∧ c ≠ .full ∧ c ≠ .victim

theorem LineClass.current_offList (io : IoType) : (LineClass.current io).OffList := by
  cases io <;> exact ⟨by decide, by decide, by decide⟩

namespace LineLists

variable {n : Nat} {lm : LineMgmt} {cls : Nat → LineClass} {l : Nat}

/-- A list of different lines is not longer than `n`. -/
theorem length_le {ls : List Nat} (hnodup : ls.Nodup) (hlt : ∀ l ∈ ls, l < n) : ls.length ≤ n := by
  have hsub : ls ⊆ List.range n := fun l hl => List.mem_range.mpr (hlt l hl)
  simpa using (List.subperm_of_subset hnodup hsub).length_le

/-- The counters of a line that is not in the queue. -/
theorem setLine (h : LineLists n lm cls) (hl : cls l ≠ .victim) (line : Line) :
    LineLists n { lm with lines := update lm.lines l line } cls := by
  refine ⟨h.freeNodup, h.mem_free, h.freeLineCnt, h.fullNodup, h.mem_full, h.fullLineCnt, h.queue,
    h.mem_victim, h.victimLineCnt, h.ordered.congr fun j hj hjs => ?_, fun x hx => ?_⟩
  · have hne : lm.victimLinePq.d j ≠ l := by
      rintro rfl
      have hpos := (h.queue.filled.pos_d j hj hjs).1
      exact hl ((h.mem_victim _).mp (by omega)).2
    exact congrArg (fun line : Line => ulong line.vpc) (update_of_ne hne ..)
  · have hne : x ≠ l := by
      rintro rfl
      exact hl ((h.mem_victim _).mp hx).2
    dsimp only
    rw [update_of_ne hne]
    exact h.small x hx

/-- A line in the queue gets less valid pages. -/
theorem changeVictim (h : LineLists n lm cls) (hl : lm.victimLinePq.pos l ≠ 0) {newPri : Nat}
    (hlt : newPri < lm.pri l) {line : Line} (hline : line.vpc = newPri) :
    LineLists n { lm with
      lines := update lm.lines l line
      victimLinePq := (lm.victimLinePq.changePriority victimLineCmpPri lm.pri newPri l).2 } cls := by
  obtain ⟨-, hwf, hsize, hmem⟩ := h.queue.changePriority victimLineCmpPri lm.pri hl newPri
  have hsmall : newPri < 2 ^ 31 := by
    rw [LineMgmt.pri, ulong_of_lt (h.small l hl)] at hlt
    exact Nat.lt_trans hlt (h.small l hl)
  have hpri : (fun x => ulong (update lm.lines l line x).vpc) = update lm.pri l newPri := by
    funext x
    by_cases hx : x = l
    · subst hx
      rw [update_self, update_self, hline, ulong_of_lt hsmall]
    · rw [update_of_ne hx, update_of_ne hx]
      rfl
  refine ⟨h.freeNodup, h.mem_free, h.freeLineCnt, h.fullNodup, h.mem_full, h.fullLineCnt, hwf,
    fun x => (hmem x).trans (h.mem_victim x), hsize ▸ h.victimLineCnt, ?_, fun x hx => ?_⟩
  · show Pqueue.Ordered (fun x => ulong (update lm.lines l line x).vpc) _
    rw [hpri]
    exact h.ordered.changePriority (fun _ _ => rfl) h.queue hl hlt
  · show (update lm.lines l line x).vpc < _
    by_cases hxl : x = l
    · rw [hxl, update_self, hline]
      exact hsmall
    · rw [update_of_ne hxl]
      exact h.small x ((hmem x).mp hx)

/-- Membership in a list of class `c` when the line `l` goes from another class to `d`. -/
theorem mem_update {c d : LineClass} (hl : l < n) (hc : cls l ≠ c) (x : Nat) :
    x < n ∧ update cls l d x = c ↔ (x < n ∧ cls x = c) ∨ (x = l ∧ d = c) := by
  by_cases hx : x = l
  · subst hx
    simp [hl, hc]
  · simp [hx]

/-- Membership in a list of class `c` when the line `l` leaves it. -/
theorem mem_update_ne {c d : LineClass} (hd : d ≠ c) (x : Nat) :
    x < n ∧ update cls l d x = c ↔ (x < n ∧ cls x = c) ∧ x ≠ l := by
  rw [update_class hd, and_assoc]
  exact and_congr_right fun _ => and_comm

/-! ## Lines that join a list -/

section Join

variable (h : LineLists n lm cls) (hn : n < 2 ^ 32) (hl : l < n) (hc : (cls l).OffList)

include h hn hl hc

theorem addFree : LineLists n (lm.addFree l) (update cls l .free) := by
  obtain ⟨h1, h2, h3⟩ := hc
  have hnot : l ∉ lm.freeLineList := fun hm => h1 ((h.mem_free l).mp hm).2
  have hmem (x : Nat) : x ∈ lm.freeLineList ++ [l] ↔ x < n ∧ update cls l .free x = .free := by
    rw [mem_update hl h1, List.mem_append, h.mem_free, List.mem_singleton]
    simp
  have hnodup : (lm.freeLineList ++ [l]).Nodup := by
    rw [← List.concat_eq_append]
    exact h.freeNodup.concat hnot
  have hlen := length_le hnodup fun x hx => ((hmem x).mp hx).1
  refine ⟨hnodup, hmem, ?_, h.fullNodup, ?_, h.fullLineCnt, h.queue, ?_,
    h.victimLineCnt, h.ordered, h.small⟩
  · simp only [List.length_append, List.length_cons, List.length_nil] at hlen
    simp only [LineMgmt.addFree, h.freeLineCnt, List.length_append, List.length_cons,
      List.length_nil]
    exact u32_of_lt (by omega)
  · intro x
    rw [mem_update hl h2, LineMgmt.addFree, h.mem_full]
    simp
  · intro x
    rw [mem_update hl h3, LineMgmt.addFree, h.mem_victim]
    simp

theorem addFull : LineLists n (lm.addFull l) (update cls l .full) := by
  obtain ⟨h1, h2, h3⟩ := hc
  have hnot : l ∉ lm.fullLineList := fun hm => h2 ((h.mem_full l).mp hm).2
  have hmem (x : Nat) : x ∈ lm.fullLineList ++ [l] ↔ x < n ∧ update cls l .full x = .full := by
    rw [mem_update hl h2, List.mem_append, h.mem_full, List.mem_singleton]
    simp
  have hnodup : (lm.fullLineList ++ [l]).Nodup := by
    rw [← List.concat_eq_append]
    exact h.fullNodup.concat hnot
  have hlen := length_le hnodup fun x hx => ((hmem x).mp hx).1
  refine ⟨h.freeNodup, ?_, h.freeLineCnt, hnodup, hmem, ?_, h.queue, ?_,
    h.victimLineCnt, h.ordered, h.small⟩
  · intro x
    rw [mem_update hl h1, LineMgmt.addFull, h.mem_free]
    simp
  · simp only [List.length_append, List.length_cons, List.length_nil] at hlen
    simp only [LineMgmt.addFull, h.fullLineCnt, List.length_append, List.length_cons,
      List.length_nil]
    exact u32_of_lt (by omega)
  · intro x
    rw [mem_update hl h3, LineMgmt.addFull, h.mem_victim]
    simp

theorem addVictim (hsmall : (lm.lines l).vpc < 2 ^ 31) :
    LineLists n (lm.addVictim l) (update cls l .victim) := by
  obtain ⟨h1, h2, h3⟩ := hc
  have hnot : lm.victimLinePq.pos l = 0 := by
    by_contra hpos
    exact h3 ((h.mem_victim l).mp hpos).2
  obtain ⟨hwf, hsize, hpos⟩ := h.queue.push victimLineCmpPri lm.pri hnot
  have hmem (x : Nat) : (lm.addVictim l).victimLinePq.pos x ≠ 0 ↔
      x < n ∧ update cls l .victim x = .victim := by
    rw [mem_update hl h3, LineMgmt.addVictim, hpos, h.mem_victim]
    simp
  have hlen := hwf.size_le (s := Finset.range n) fun x hx => Finset.mem_range.mpr ((hmem x).mp hx).1
  refine ⟨h.freeNodup, ?_, h.freeLineCnt, h.fullNodup, ?_, h.fullLineCnt, hwf, hmem, ?_,
    h.ordered.push fun _ _ => rfl, fun x hx => ?_⟩
  · intro x
    rw [mem_update hl h1, LineMgmt.addVictim, h.mem_free]
    simp
  · intro x
    rw [mem_update hl h2, LineMgmt.addVictim, h.mem_full]
    simp
  · have hcnt := h.victimLineCnt
    rw [Finset.card_range] at hlen
    simp only [LineMgmt.addVictim]
    rw [hsize, u32_of_lt (by omega)]
    omega
  · obtain hx | rfl := (hpos x).mp hx
    · exact h.small x hx
    · exact hsmall

end Join

/-! ## Lines that leave a list -/

section Leave

variable (h : LineLists n lm cls) (hn : n < 2 ^ 32)

include h hn

/-- The first line of the free list goes to the class `c`. -/
theorem getNextFreeLine {ls : List Nat} (hfree : lm.freeLineList = l :: ls) {c : LineClass}
    (hc : c.OffList) :
    lm.getNextFreeLine =
        some (l, { lm with freeLineList := ls, freeLineCnt := lm.freeLineList.length - 1 }) ∧
      LineLists n { lm with freeLineList := ls, freeLineCnt := lm.freeLineList.length - 1 }
        (update cls l c) := by
  obtain ⟨h1, h2, h3⟩ := hc
  have hlen := length_le h.freeNodup fun x hx => ((h.mem_free x).mp hx).1
  have hl : l < n ∧ cls l = .free := (h.mem_free l).mp (by simp [hfree])
  have hnotFull : l ∉ lm.fullLineList := by
    intro hm
    have := ((h.mem_full l).mp hm).2
    rw [hl.2] at this
    cases this
  have hnodup := h.freeNodup
  rw [hfree, List.nodup_cons] at hnodup
  have hcnt : dec32 lm.freeLineCnt = lm.freeLineList.length - 1 := by
    rw [h.freeLineCnt]
    exact dec32_of_pos (by simp [hfree]) (by omega)
  refine ⟨?_, hnodup.2, ?_, by simp [hfree], h.fullNodup, ?_, h.fullLineCnt, h.queue, ?_,
    h.victimLineCnt, h.ordered, h.small⟩
  · unfold LineMgmt.getNextFreeLine
    rw [hfree]
    simp only [LineMgmt.delEntry, hfree, List.erase_cons_head, List.erase_of_not_mem hnotFull,
      hcnt]
  · intro x
    rw [mem_update_ne h1, ← h.mem_free, hfree, List.mem_cons]
    constructor
    · intro hx
      refine ⟨.inr hx, ?_⟩
      rintro rfl
      exact hnodup.1 hx
    · rintro ⟨rfl | hx, hne⟩
      · exact absurd rfl hne
      · exact hx
  · intro x
    rw [mem_update hl.1 (by rw [hl.2]; decide), h.mem_full]
    simp [h2]
  · intro x
    rw [mem_update hl.1 (by rw [hl.2]; decide), h.mem_victim]
    simp [h3]

/-- A line of the full list goes to the queue. -/
theorem fullToVictim (hl : l < n) (hfull : cls l = .full) (hsmall : (lm.lines l).vpc < 2 ^ 31) :
    LineLists n
      ({ lm.delEntry l with fullLineCnt := dec32 (lm.delEntry l).fullLineCnt }.addVictim l)
      (update cls l .victim) ∧ lm.freeLineList.erase l = lm.freeLineList := by
  have hmem : l ∈ lm.fullLineList := (h.mem_full l).mpr ⟨hl, hfull⟩
  have hnotFree : l ∉ lm.freeLineList := by
    intro hm
    have := ((h.mem_free l).mp hm).2
    rw [hfull] at this
    cases this
  have hfree := List.erase_of_not_mem hnotFree
  have hlen := length_le h.fullNodup fun x hx => ((h.mem_full x).mp hx).1
  have hpos := List.length_pos_of_mem hmem
  refine ⟨?_, hfree⟩
  have hout : LineLists n { lm.delEntry l with fullLineCnt := dec32 (lm.delEntry l).fullLineCnt }
      (update cls l .collected) := by
    simp only [LineMgmt.delEntry, hfree]
    refine ⟨h.freeNodup, ?_, h.freeLineCnt, h.fullNodup.erase l, ?_, ?_, h.queue, ?_,
      h.victimLineCnt, h.ordered, h.small⟩
    · intro x
      rw [mem_update hl (by rw [hfull]; decide), h.mem_free]
      simp
    · intro x
      rw [mem_update_ne (by decide), h.fullNodup.mem_erase_iff, h.mem_full]
      exact And.comm
    · rw [h.fullLineCnt, dec32_of_pos hpos (by omega), List.length_erase_of_mem hmem]
    · intro x
      rw [mem_update hl (by rw [hfull]; decide), h.mem_victim]
      simp
  have := hout.addVictim hn hl (by rw [update_self]; exact ⟨by decide, by decide, by decide⟩) hsmall
  rwa [update_idem] at this

/-- The head of the queue is taken out. -/
theorem popVictim (hs : lm.victimLinePq.size ≠ 1) {v : Nat} (hv : lm.victimLinePq.d 1 = v) :
    (v < n ∧ cls v = .victim) ∧
      LineLists n { lm with
        victimLinePq := { lm.victimLinePq.pop victimLineCmpPri lm.pri with
          pos := update (lm.victimLinePq.pop victimLineCmpPri lm.pri).pos v 0 }
        victimLineCnt := dec32 lm.victimLineCnt } (update cls v .collected) := by
  subst hv
  obtain ⟨hwf, hsize, hmem⟩ := h.queue.pop victimLineCmpPri lm.pri hs
  have hhead := (h.queue.peek hs).2
  have hv := (h.mem_victim (lm.victimLinePq.d 1)).mp (by omega)
  have hcnt := h.victimLineCnt
  have hone := h.queue.size
  have hle := h.queue.size_le (s := Finset.range n) fun x hx =>
    Finset.mem_range.mpr ((h.mem_victim x).mp hx).1
  rw [Finset.card_range] at hle
  refine ⟨hv, h.freeNodup, ?_, h.freeLineCnt, h.fullNodup, ?_, h.fullLineCnt, hwf, ?_, ?_,
    h.ordered.pop fun _ _ => rfl, fun x hx => h.small x ((hmem x).mp hx).1⟩
  · intro x
    rw [mem_update hv.1 (by rw [hv.2]; decide), h.mem_free]
    simp
  · intro x
    rw [mem_update hv.1 (by rw [hv.2]; decide), h.mem_full]
    simp
  · intro x
    rw [mem_update_ne (by decide), hmem, h.mem_victim]
  · simp only [hsize]
    rw [dec32_of_pos (by omega) (by omega)]
    omega

end Leave

end LineLists

end Nvmev
