import NvmeVirt.Conv.Pqueue

/-!
# The order of the heap

`Ordered q`: no element has a smaller priority than its parent. The priority of a queued element may only
change through the queue, which moves it; that of an element outside changes nothing (`Ordered.congr`).

A sift moves a hole through the heap. `Gap` is what holds of the elements around it: those that do not
touch the hole are ordered, and its children are not smaller than its parent.
-/

namespace Nvmev

open Function

namespace Pqueue

variable {α : Type} [DecidableEq α] {cmppri : Nat → Nat → Bool} {pri pri' : α → Nat} {q : Pqueue α}
  {i : Nat} {m x : α}

/-- No element has a smaller priority than its parent. -/
def Ordered (pri : α → Nat) (q : Pqueue α) : Prop :=
  ∀ j, 2 ≤ j → j < q.size → pri (q.d (j / 2)) ≤ pri (q.d j)

/-- The order around a hole at `i`. -/
structure Gap (pri : α → Nat) (q : Pqueue α) (i : Nat) : Prop where
  edge : ∀ j, 2 ≤ j → j < q.size → j ≠ i → j / 2 ≠ i → pri (q.d (j / 2)) ≤ pri (q.d j)
  skip : 2 ≤ i → ∀ j, j < q.size → j / 2 = i → pri (q.d (i / 2)) ≤ pri (q.d j)

/-- The children of the hole are not smaller than `m`. -/
def Above (pri : α → Nat) (q : Pqueue α) (i : Nat) (m : α) : Prop :=
  ∀ j, 2 ≤ j → j < q.size → j / 2 = i → pri m ≤ pri (q.d j)

/-- The parent of the hole is not larger than `m`. -/
def Below (pri : α → Nat) (q : Pqueue α) (i : Nat) (m : α) : Prop :=
  2 ≤ i → pri (q.d (i / 2)) ≤ pri m

omit [DecidableEq α] in
theorem ordered_init (pri : α → Nat) (n : Nat) (d : Nat → α) : Ordered pri (init n d) := by
  intro j hj hjs
  simp only [init] at hjs
  omega

omit [DecidableEq α] in
/-- The priorities of the elements decide. -/
theorem Ordered.congr (h : Ordered pri q) (heq : ∀ j, 1 ≤ j → j < q.size → pri' (q.d j) = pri (q.d j)) :
    Ordered pri' q := by
  intro j hj hjs
  rw [heq (j / 2) (by omega) (by omega), heq j (by omega) hjs]
  exact h j hj hjs

omit [DecidableEq α] in
/-- The first element has the smallest priority. -/
theorem Ordered.head_le (h : Ordered pri q) {j : Nat} (hj : 1 ≤ j) (hjs : j < q.size) :
    pri (q.d 1) ≤ pri (q.d j) := by
  induction j using Nat.strong_induction_on with
  | _ j ih =>
    by_cases h1 : j = 1
    · rw [h1]
    · calc pri (q.d 1) ≤ pri (q.d (j / 2)) := ih (j / 2) (by omega) (by omega) (by omega)
        _ ≤ pri (q.d j) := h j (by omega) hjs

/-- `subtree_is_valid`. The position at least doubles in a call. -/
def subtreeIsValid (cmppri : Nat → Nat → Bool) (pri : α → Nat) (q : Pqueue α) : Nat → Nat → Bool
  | 0, _ => true
  | fuel + 1, pos =>
    (if 2 * pos < q.size then
      !cmppri (pri (q.d pos)) (pri (q.d (2 * pos))) && subtreeIsValid cmppri pri q fuel (2 * pos)
    else true) &&
    (if 2 * pos + 1 < q.size then
      !cmppri (pri (q.d pos)) (pri (q.d (2 * pos + 1))) &&
        subtreeIsValid cmppri pri q fuel (2 * pos + 1)
    else true)

/-- `pqueue_is_valid`. -/
def isValid (cmppri : Nat → Nat → Bool) (pri : α → Nat) (q : Pqueue α) : Bool :=
  subtreeIsValid cmppri pri q q.size 1

omit [DecidableEq α] in
theorem Ordered.subtreeIsValid (h : Ordered pri q)
    (hcmp : ∀ next curr, cmppri next curr = decide (curr < next)) (fuel : Nat) {pos : Nat}
    (hpos : 1 ≤ pos) : subtreeIsValid cmppri pri q fuel pos = true := by
  have hchild {pos c : Nat} (hc : c / 2 = pos) (hcs : c < q.size) (hpos : 1 ≤ pos) :
      cmppri (pri (q.d pos)) (pri (q.d c)) = false := by
    have hle := h c (by omega) hcs
    rw [hc] at hle
    rw [hcmp, decide_eq_false_iff_not]
    omega
  induction fuel generalizing pos with
  | zero => rfl
  | succ fuel ih =>
    unfold Pqueue.subtreeIsValid
    rw [Bool.and_eq_true]
    constructor
    · split
      · rename_i hlt
        rw [hchild (by omega) hlt hpos, ih (by omega : 1 ≤ 2 * pos)]
        rfl
      · rfl
    · split
      · rename_i hlt
        rw [hchild (by omega) hlt hpos, ih (by omega : 1 ≤ 2 * pos + 1)]
        rfl
      · rfl

/-! ## The hole -/

theorem place_d (j : Nat) (x : α) : (q.place i x).d j = if j = i then x else q.d j :=
  update_apply q.d i x j

/-- The moving node fills the hole. -/
theorem Gap.fill (h : Gap pri q i) (hbelow : Below pri q i m) (habove : Above pri q i m) :
    Ordered pri (q.place i m) := by
  intro j hj hjs
  rw [place_size] at hjs
  rw [place_d, place_d]
  by_cases hji : j = i
  · rw [if_pos hji, if_neg (by omega), hji]
    exact hbelow (by omega)
  rw [if_neg hji]
  by_cases hhalf : j / 2 = i
  · rw [if_pos hhalf]
    exact habove j hj hjs hhalf
  · rw [if_neg hhalf]
    exact h.edge j hj hjs hji hhalf

/-- The parent moves down into the hole. -/
theorem Gap.up (h : Gap pri q i) (hi : 2 ≤ i) : Gap pri (q.place i (q.d (i / 2))) (i / 2) := by
  refine ⟨fun j hj hjs hne hhalf => ?_, fun hi2 j hjs hhalf => ?_⟩
  · rw [place_size] at hjs
    rw [place_d, place_d, if_neg (by omega : j ≠ i)]
    by_cases hup : j / 2 = i
    · rw [if_pos hup]
      exact h.skip hi j hjs hup
    · rw [if_neg hup]
      exact h.edge j hj hjs (by omega) hup
  · rw [place_size] at hjs
    have hgrand : pri (q.d (i / 2 / 2)) ≤ pri (q.d (i / 2)) :=
      h.edge (i / 2) hi2 (by omega) (by omega) (by omega)
    rw [place_d, place_d, if_neg (by omega : i / 2 / 2 ≠ i)]
    by_cases hji : j = i
    · rw [if_pos hji]
      exact hgrand
    · rw [if_neg hji]
      have hedge := h.edge j (by omega) hjs hji (by omega)
      rw [hhalf] at hedge
      exact Nat.le_trans hgrand hedge

theorem Gap.above_up (h : Gap pri q i) (hi : 2 ≤ i) (hlt : pri m < pri (q.d (i / 2))) :
    Above pri (q.place i (q.d (i / 2))) (i / 2) m := by
  intro j hj hjs hhalf
  rw [place_size] at hjs
  rw [place_d]
  by_cases hji : j = i
  · rw [if_pos hji]
    exact Nat.le_of_lt hlt
  · rw [if_neg hji]
    have hedge := h.edge j hj hjs hji (by omega)
    rw [hhalf] at hedge
    omega

/-- The smallest child `c` moves up into the hole. -/
theorem Gap.down (h : Gap pri q i) {c : Nat} (hc : c / 2 = i) (_ : 1 ≤ i) (hcs : c < q.size)
    (hmin : Above pri q i (q.d c)) : Gap pri (q.place i (q.d c)) c := by
  refine ⟨fun j hj hjs hne hhalf => ?_, fun _ j hjs hhalf => ?_⟩
  · rw [place_size] at hjs
    rw [place_d, place_d]
    by_cases hji : j = i
    · rw [if_pos hji, if_neg (by omega), hji]
      exact h.skip (by omega) c hcs hc
    rw [if_neg hji]
    by_cases hup : j / 2 = i
    · rw [if_pos hup]
      exact hmin j hj hjs hup
    · rw [if_neg hup]
      exact h.edge j hj hjs hji hup
  · rw [place_size] at hjs
    have hedge := h.edge j (by omega) hjs (by omega) (by omega)
    rw [hhalf] at hedge
    rw [place_d, place_d, if_pos hc, if_neg (by omega)]
    exact hedge

/-! ## The sifts -/

section Sift

variable (hcmp : ∀ next curr, cmppri next curr = decide (curr < next))

include hcmp

theorem Gap.bubbleUpLoop {fuel : Nat} (h : Gap pri q i) (habove : Above pri q i m) (hf : i ≤ fuel) :
    Ordered pri ((bubbleUpLoop cmppri pri m fuel i q).2.place (bubbleUpLoop cmppri pri m fuel i q).1 m) := by
  induction fuel generalizing i q with
  | zero => exact h.fill (fun hi => by omega) habove
  | succ fuel ih =>
    unfold Pqueue.bubbleUpLoop
    split
    · rename_i hc
      rw [hcmp, decide_eq_true_eq] at hc
      exact ih (h.up hc.1) (h.above_up hc.1 hc.2) (by omega)
    · rename_i hc
      rw [hcmp, decide_eq_true_eq] at hc
      refine h.fill (fun hi => ?_) habove
      omega

omit [DecidableEq α] in
/-- The child that `maxchild` takes is the smallest. -/
theorem above_maxchild (hc : maxchild cmppri pri q i ≠ 0) (_ : 1 ≤ i) :
    maxchild cmppri pri q i / 2 = i ∧ maxchild cmppri pri q i < q.size ∧
      Above pri q i (q.d (maxchild cmppri pri q i)) := by
  unfold maxchild at hc ⊢
  dsimp only at hc ⊢
  split at hc
  · exact absurd rfl hc
  rename_i hleft
  rw [if_neg hleft]
  simp only [hcmp, decide_eq_true_eq]
  have hcase {j : Nat} (hj : j / 2 = i) : j = 2 * i ∨ j = 2 * i + 1 := by omega
  split
  · rename_i hright
    refine ⟨by omega, hright.1, fun j _ _ hj => ?_⟩
    rcases hcase hj with rfl | rfl
    · exact Nat.le_of_lt hright.2
    · exact Nat.le_refl _
  · rename_i hright
    refine ⟨by omega, by omega, fun j _ hjs hj => ?_⟩
    rcases hcase hj with rfl | rfl
    · exact Nat.le_refl _
    · omega

theorem Gap.percolateDownLoop {fuel : Nat} (h : Gap pri q i) (hbelow : Below pri q i m) (hi : 1 ≤ i)
    (hf : q.size ≤ i + fuel) : Ordered pri
      ((percolateDownLoop cmppri pri m fuel i q).2.place (percolateDownLoop cmppri pri m fuel i q).1 m) := by
  induction fuel generalizing i q with
  | zero => exact h.fill hbelow fun j _ hjs hj => by omega
  | succ fuel ih =>
    unfold Pqueue.percolateDownLoop
    dsimp only
    split
    · rename_i hc
      obtain ⟨hhalf, hlt, hmin⟩ := above_maxchild hcmp hc.1 hi
      rw [hcmp, decide_eq_true_eq] at hc
      refine ih (h.down hhalf hi hlt hmin) (fun _ => ?_) (by omega) (by rw [place_size]; omega)
      rw [place_d, if_pos hhalf]
      exact Nat.le_of_lt hc.2
    · rename_i hc
      refine h.fill hbelow fun j hj hjs hhalf => ?_
      by_cases hchild : maxchild cmppri pri q i = 0
      · -- There is no child.
        unfold maxchild at hchild
        dsimp only at hchild
        split at hchild
        · omega
        · split at hchild <;> omega
      · obtain ⟨-, -, hmin⟩ := above_maxchild hcmp hchild hi
        have hle : ¬ pri (q.d (maxchild cmppri pri q i)) < pri m := by
          rw [hcmp, decide_eq_true_eq] at hc
          exact fun hlt => hc ⟨hchild, hlt⟩
        have := hmin j hj hjs hhalf
        omega

/-! ## The operations -/

theorem Ordered.push (h : Ordered pri q) : Ordered pri (push cmppri pri q x) := by
  have hd (j : Nat) : update q.d q.size x j = if j = q.size then x else q.d j := update_apply ..
  unfold Pqueue.push bubbleUp
  dsimp only
  refine Gap.bubbleUpLoop hcmp ⟨fun j hj hjs hne _ => ?_, fun _ j hjs hhalf => ?_⟩
    (fun j hj hjs hhalf => ?_) (Nat.le_refl _)
  · dsimp only at hjs ⊢
    rw [hd, hd, if_neg (by omega), if_neg hne]
    exact h j hj (by omega)
  · dsimp only at hjs
    omega
  · dsimp only at hjs
    omega

/-- The priority of an element becomes smaller. -/
theorem Ordered.changePriority (h : Ordered pri q) (hwf : q.Wf) (hx : q.pos x ≠ 0) {newPri : Nat}
    (hlt : newPri < pri x) : Ordered (update pri x newPri) (changePriority cmppri pri q newPri x).2 := by
  obtain ⟨hpos, hd⟩ := hwf.d_pos hx
  have hother {j : Nat} (hj : 1 ≤ j) (hjs : j < q.size) (hne : j ≠ q.pos x) :
      update pri x newPri (q.d j) = pri (q.d j) := by
    refine update_of_ne ?_ ..
    intro he
    have hposj := (hwf.filled.pos_d j hj hjs).1
    rw [he] at hposj
    exact hne hposj.symm
  unfold Pqueue.changePriority
  dsimp only
  rw [hcmp, if_pos (decide_eq_true hlt)]
  unfold bubbleUp
  dsimp only
  rw [hd]
  refine Gap.bubbleUpLoop hcmp ⟨fun j hj hjs hne hhalf => ?_, fun hi j hjs hhalf => ?_⟩
    (fun j hj hjs hhalf => ?_) (Nat.le_refl _)
  · rw [hother (by omega) (by omega) hhalf, hother (by omega) hjs hne]
    exact h j hj hjs
  · have hparent := h (q.pos x) hi hpos
    have hchild := h j (by omega) hjs
    rw [hhalf] at hchild
    rw [hother (by omega) (by omega) (by omega), hother (by omega) hjs (by omega)]
    exact Nat.le_trans hparent hchild
  · have hchild := h j hj hjs
    rw [hhalf, hd] at hchild
    rw [update_self, hother (by omega) hjs (by omega)]
    omega

/-- `pop` on a queue that is not empty. -/
theorem Ordered.pop (h : Ordered pri q) : Ordered pri (pop cmppri pri q) := by
  have hd (j : Nat) : update q.d 1 (q.d (q.size - 1)) j = if j = 1 then q.d (q.size - 1) else q.d j :=
    update_apply ..
  unfold Pqueue.pop percolateDown
  dsimp only
  refine Gap.percolateDownLoop hcmp ⟨fun j hj hjs hne hhalf => ?_, fun hi => ?_⟩ (fun hi => ?_)
    (Nat.le_refl _) (by dsimp only; omega)
  · dsimp only at hjs ⊢
    rw [hd, hd, if_neg hhalf, if_neg hne]
    exact h j hj (by omega)
  · omega
  · omega

end Sift

end Pqueue

end Nvmev
