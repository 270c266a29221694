import NvmeVirt.Conv.Heap

/-!
# The queue as a set with priorities

What `pqueue.c` is for: a finite set of elements, of which one with the least priority is at the head. Its
callers insert what is not in the queue, no more elements than it was made for, and change the priority of
what is in it through the queue only; an element that has left may keep a position, which nothing reads.

`pqueue_least_first`: every run of such calls, with removals of any element, returns, and the queue has
exactly its members, is valid, and has a least one at the head. `pqueue_drains_sorted`: popping it until it is empty
gives its members in the order of their priorities.
-/

namespace Nvmev

open Function Outcome

namespace Pqueue

variable {α : Type} [DecidableEq α] {cmppri : Nat → Nat → Bool} {pri pri' : α → Nat} {q q' : Pqueue α}
  {i : Nat} {x : α} {s : Finset α}

/-- A call of the queue; or its caller assigns a priority. -/
inductive Op (α : Type) where
  | assign (x : α) (newPri : Nat)
  | insert (x : α)
  | changePriority (newPri : Nat) (x : α)
  | remove (x : α)
  | pop

/-- The queue, the priorities, and the elements that were inserted and have not left. -/
structure Queued (α : Type) where
  q : Pqueue α
  pri : α → Nat
  members : Finset α := ∅

namespace Queued

def popped (cmppri : Nat → Nat → Bool) (s : Queued α) : Queued α :=
  match s.q.peek with
  | none => s
  | some x => { s with
      q := s.q.pop cmppri s.pri
      members := s.members.erase x }

def step (cmppri : Nat → Nat → Bool) (s : Queued α) : Op α → Except Bug (Queued α)
  | .assign x newPri => pure { s with pri := update s.pri x newPri }
  | .insert x => do
    let q ← s.q.insert cmppri s.pri x
    pure { s with q, members := Insert.insert x s.members }
  | .changePriority newPri x => pure { s with
      q := (s.q.changePriority cmppri s.pri newPri x).2
      pri := (s.q.changePriority cmppri s.pri newPri x).1 }
  | .remove x => pure { s with
      q := s.q.remove cmppri s.pri x
      members := s.members.erase x }
  | .pop => pure (s.popped cmppri)

/-- What a caller observes. -/
def Proper (s : Queued α) : Op α → Prop
  | .assign x _ => x ∉ s.members
  | .insert x => x ∉ s.members ∧ s.members.card + 1 < s.q.avail
  | .changePriority _ x => x ∈ s.members
  | .remove x => x ∈ s.members
  | .pop => True

instance Proper.decidable (s : Queued α) : ∀ op, Decidable (Proper s op)
  | .assign x _ => inferInstanceAs (Decidable (x ∉ s.members))
  | .insert x => inferInstanceAs (Decidable (x ∉ s.members ∧ s.members.card + 1 < s.q.avail))
  | .changePriority _ x => inferInstanceAs (Decidable (x ∈ s.members))
  | .remove x => inferInstanceAs (Decidable (x ∈ s.members))
  | .pop => .isTrue trivial

/-- The elements that up to `n` pops give. -/
def drain (cmppri : Nat → Nat → Bool) : Nat → Queued α → List α
  | 0, _ => []
  | n + 1, s =>
    match s.q.peek with
    | none => []
    | some x => x :: drain cmppri n (s.popped cmppri)

end Queued

/-- The queue has the members of `s`, each at its position. -/
structure Holds (q : Pqueue α) (s : Finset α) : Prop where
  size : q.size = s.card + 1
  filled : Filled q (· ∉ s)
  mem : ∀ x ∈ s, q.pos x ≠ 0

/-! ## The members -/

omit [DecidableEq α] in
theorem holds_init (n : Nat) (d : Nat → α) : Holds (init n d) ∅ where
  size := rfl
  filled := ⟨fun j hj hjs => by simp only [init] at hjs; omega, fun x _ hx => absurd rfl hx⟩
  mem x hx := absurd hx (Finset.notMem_empty x)

omit [DecidableEq α] in
theorem Holds.d_pos (h : Holds q s) (hx : x ∈ s) : 1 ≤ q.pos x ∧ q.pos x < q.size ∧ q.d (q.pos x) = x := by
  obtain ⟨hlt, hd⟩ := h.filled.d_pos x (fun hn => hn hx) (h.mem x hx)
  exact ⟨Nat.pos_of_ne_zero (h.mem x hx), hlt, hd⟩

omit [DecidableEq α] in
theorem Holds.pos_d (h : Holds q s) (hi : 1 ≤ i) (his : i < q.size) : q.pos (q.d i) = i ∧ q.d i ∈ s := by
  obtain ⟨hpos, hmem⟩ := h.filled.pos_d i hi his
  exact ⟨hpos, by simpa using hmem⟩

omit [DecidableEq α] in
theorem Holds.hole (h : Holds q s) (hx : x ∈ s) : Hole q (· ∉ s) (q.pos x) x := by
  refine ⟨fun hn => hn hx, fun j hj hjs hne => ?_, fun y hy hyx hpos => ?_⟩
  · obtain ⟨hpos, hmem⟩ := h.filled.pos_d j hj hjs
    refine ⟨hpos, hmem, ?_⟩
    rintro rfl
    exact hne hpos.symm
  · obtain ⟨hlt, hd⟩ := h.filled.d_pos y hy hpos
    refine ⟨hlt, fun heq => hyx ?_, hd⟩
    rw [← hd, heq, (h.d_pos hx).2.2]

omit [DecidableEq α] in
/-- A sift of an element of a queue. -/
theorem Holds.sifted (h : Holds q s) (hs : Sifted q q' (· ∉ s) x) : Holds q' s where
  size := hs.size.trans h.size
  filled := hs.filled
  mem y hy := (hs.mem y).mpr (.inl (h.mem y hy))

theorem Holds.push (h : Holds q s) (hx : x ∉ s) :
    Holds (q.push cmppri pri x) (Insert.insert x s) := by
  have hsize := h.size
  have hd : ({ q with size := q.size + 1, d := update q.d q.size x } : Pqueue α).d q.size = x := by
    simp
  have hole : Hole { q with size := q.size + 1, d := update q.d q.size x }
      (· ∉ (Insert.insert x s : Finset α)) q.size x := by
    refine ⟨fun hn => hn (Finset.mem_insert_self x s), fun j hj hjs hne => ?_, fun y hy hyx hpos => ?_⟩
    · obtain ⟨hpos, hmem⟩ := h.pos_d hj (by dsimp only at hjs; omega)
      dsimp only
      rw [update_of_ne hne]
      refine ⟨hpos, fun hn => hn (Finset.mem_insert_of_mem hmem), ?_⟩
      rintro rfl
      exact hx hmem
    · have hmem : y ∈ s := Finset.mem_of_mem_insert_of_ne (not_not.mp hy) hyx
      obtain ⟨-, hlt, hdy⟩ := h.d_pos hmem
      dsimp only at hpos ⊢
      rw [update_of_ne (by omega)]
      exact ⟨by omega, by omega, hdy⟩
  have hs := sifted_bubbleUp cmppri pri (q := { q with size := q.size + 1, d := update q.d q.size x })
    (i := q.size) (by rw [hd]; exact hole) (by omega) (Nat.lt_succ_self _)
  rw [hd] at hs
  refine ⟨?_, hs.filled, fun y hy => (hs.mem y).mpr ?_⟩
  · rw [Finset.card_insert_of_notMem hx]
    exact hs.size.trans (by dsimp only; omega)
  · rcases Finset.mem_insert.mp hy with rfl | hy
    · exact .inr rfl
    · exact .inl (h.mem y hy)

theorem Holds.changePriority (h : Holds q s) (hx : x ∈ s) (newPri : Nat) :
    Holds (q.changePriority cmppri pri newPri x).2 s := by
  obtain ⟨hpos, hlt, hd⟩ := h.d_pos hx
  have hole : Hole q (· ∉ s) (q.pos x) (q.d (q.pos x)) := by
    rw [hd]
    exact h.hole hx
  unfold Pqueue.changePriority
  dsimp only
  split
  · exact h.sifted (sifted_bubbleUp cmppri _ hole hpos hlt)
  · exact h.sifted (sifted_percolateDown cmppri _ hole hpos hlt)

/-- The queue when the last element has taken the place at `i`. -/
def vacate (q : Pqueue α) (i : Nat) : Pqueue α :=
  { q with size := q.size - 1, d := update q.d i (q.d (q.size - 1)) }

omit [DecidableEq α] in
theorem vacate_d (j : Nat) : (q.vacate i).d j = if j = i then q.d (q.size - 1) else q.d j :=
  update_apply ..

/-- The last element takes the place of another one. -/
theorem Holds.hole_vacate (h : Holds q s) (hx : x ∈ s) (hne : q.pos x ≠ q.size - 1) :
    Hole (q.vacate (q.pos x)) (· ∉ s.erase x) (q.pos x) (q.d (q.size - 1)) := by
  obtain ⟨hpos, hlt, hd⟩ := h.d_pos hx
  obtain ⟨hlast, hlastmem⟩ := h.pos_d (i := q.size - 1) (by omega) (by omega)
  have hlastx : q.d (q.size - 1) ≠ x := by
    rintro rfl
    exact hne hlast
  refine ⟨fun hn => hn (Finset.mem_erase.mpr ⟨hlastx, hlastmem⟩), fun j hj hjs hji => ?_,
    fun y hy hym hposy => ?_⟩
  · change j < q.size - 1 at hjs
    obtain ⟨hposj, hmem⟩ := h.pos_d hj (by omega)
    rw [vacate_d, if_neg hji]
    refine ⟨hposj, fun hn => hn (Finset.mem_erase.mpr ⟨?_, hmem⟩), fun heq => ?_⟩
    · intro heq
      rw [heq] at hposj
      exact hji hposj.symm
    · rw [heq, hlast] at hposj
      omega
  · obtain ⟨hyx, hmem⟩ := Finset.mem_erase.mp (not_not.mp hy)
    obtain ⟨-, hlty, hdy⟩ := h.d_pos hmem
    have hyi : q.pos y ≠ q.pos x := fun heq => hyx (by rw [← hdy, heq, hd])
    have hyl : q.pos y ≠ q.size - 1 := fun heq => hym (by rw [← hdy, heq])
    refine ⟨?_, hyi, ?_⟩
    · change q.pos y < q.size - 1
      omega
    · change (q.vacate (q.pos x)).d (q.pos y) = y
      rw [vacate_d, if_neg hyi, hdy]

/-- A sift after the last element has taken the place of another one. -/
theorem Holds.sifted_vacate (h : Holds q s) (hx : x ∈ s)
    (hs : Sifted (q.vacate (q.pos x)) q' (· ∉ s.erase x) (q.d (q.size - 1))) : Holds q' (s.erase x) := by
  have hcard := Finset.card_erase_add_one hx
  have hsize := h.size
  refine ⟨?_, hs.filled, fun y hy => (hs.mem y).mpr (.inl (h.mem y (Finset.mem_of_mem_erase hy)))⟩
  rw [hs.size]
  change q.size - 1 = _
  omega

/-- The last element leaves. -/
theorem Holds.erase_last (h : Holds q s) (hx : x ∈ s) (hlast : q.pos x = q.size - 1) :
    Holds ((q.vacate (q.pos x)).place (q.pos x) x) (s.erase x) := by
  obtain ⟨hpos, hlt, hd⟩ := h.d_pos hx
  have hcard := Finset.card_erase_add_one hx
  have hsize := h.size
  refine ⟨?_, ⟨fun j hj hjs => ?_, fun y hy hposy => ?_⟩, fun y hy => ?_⟩
  · change q.size - 1 = _
    omega
  · change j < q.size - 1 at hjs
    obtain ⟨hposj, hmem⟩ := h.pos_d hj (by omega)
    have hjx : q.d j ≠ x := by
      rintro rfl
      omega
    rw [place_d, if_neg (by omega), vacate_d, if_neg (by omega)]
    refine ⟨?_, fun hn => hn (Finset.mem_erase.mpr ⟨hjx, hmem⟩)⟩
    exact (update_of_ne hjx ..).trans hposj
  · obtain ⟨hyx, hmem⟩ := Finset.mem_erase.mp (not_not.mp hy)
    obtain ⟨-, hlty, hdy⟩ := h.d_pos hmem
    have hposq : ((q.vacate (q.pos x)).place (q.pos x) x).pos y = q.pos y := update_of_ne hyx ..
    have hyi : q.pos y ≠ q.pos x := fun heq => hyx (by rw [← hdy, heq, hd])
    rw [hposq]
    refine ⟨?_, ?_⟩
    · change q.pos y < q.size - 1
      omega
    · rw [place_d, if_neg hyi, vacate_d, if_neg hyi, hdy]
  · obtain ⟨hyx, hmem⟩ := Finset.mem_erase.mp hy
    rw [show ((q.vacate (q.pos x)).place (q.pos x) x).pos y = q.pos y from update_of_ne hyx ..]
    exact h.mem y hmem

/-- Behind the elements there is nothing to percolate. -/
theorem percolateDown_outside (cmppri : Nat → Nat → Bool) (pri : α → Nat) (hi : q.size ≤ i) :
    q.percolateDown cmppri pri i = q.place i (q.d i) := by
  have hloop (fuel : Nat) : percolateDownLoop cmppri pri (q.d i) fuel i q = (i, q) := by
    have hchild : maxchild cmppri pri q i = 0 := by
      unfold maxchild
      dsimp only
      rw [if_pos (by omega)]
    cases fuel with
    | zero => rfl
    | succ fuel =>
      unfold percolateDownLoop
      dsimp only
      rw [hchild, if_neg fun hc => hc.1 rfl]
  unfold percolateDown
  rw [hloop]

theorem Holds.percolate_vacate (h : Holds q s) (hx : x ∈ s) :
    Holds ((q.vacate (q.pos x)).percolateDown cmppri pri (q.pos x)) (s.erase x) := by
  obtain ⟨hpos, hlt, hd⟩ := h.d_pos hx
  have hmoved : (q.vacate (q.pos x)).d (q.pos x) = q.d (q.size - 1) := by rw [vacate_d, if_pos rfl]
  by_cases hlast : q.pos x = q.size - 1
  · rw [percolateDown_outside cmppri pri (by rw [hlast]; exact Nat.le_refl _), hmoved, ← hlast, hd]
    exact h.erase_last hx hlast
  · have hole := h.hole_vacate hx hlast
    rw [← hmoved] at hole
    have hs := sifted_percolateDown cmppri pri hole hpos (by change _ < q.size - 1; omega)
    rw [hmoved] at hs
    exact h.sifted_vacate hx hs

theorem Holds.remove (h : Holds q s) (hcmp : ∀ next curr, cmppri next curr = decide (curr < next))
    (hx : x ∈ s) : Holds (q.remove cmppri pri x) (s.erase x) := by
  obtain ⟨hpos, hlt, hd⟩ := h.d_pos hx
  have hmoved : (q.vacate (q.pos x)).d (q.pos x) = q.d (q.size - 1) := by rw [vacate_d, if_pos rfl]
  change Holds (if cmppri (pri x) (pri ((q.vacate (q.pos x)).d (q.pos x))) then
    (q.vacate (q.pos x)).bubbleUp cmppri pri (q.pos x)
    else (q.vacate (q.pos x)).percolateDown cmppri pri (q.pos x)) (s.erase x)
  split
  · rename_i hc
    rw [hcmp, decide_eq_true_eq, hmoved] at hc
    have hlast : q.pos x ≠ q.size - 1 := by
      intro heq
      rw [← heq, hd] at hc
      exact Nat.lt_irrefl _ hc
    have hole := h.hole_vacate hx hlast
    rw [← hmoved] at hole
    have hs := sifted_bubbleUp cmppri pri hole hpos (by change _ < q.size - 1; omega)
    rw [hmoved] at hs
    exact h.sifted_vacate hx hs
  · exact h.percolate_vacate hx

omit [DecidableEq α] in
/-- The head is the element at position 1. -/
theorem Holds.peek (h : Holds q s) : q.peek = none ∧ s = ∅ ∨
    q.peek = some (q.d 1) ∧ q.d 1 ∈ s ∧ q.pos (q.d 1) = 1 := by
  have hsize := h.size
  unfold Pqueue.peek
  by_cases h1 : q.size = 1
  · exact .inl ⟨if_pos h1, Finset.card_eq_zero.mp (by omega)⟩
  · obtain ⟨hpos, hmem⟩ := h.pos_d (i := 1) (Nat.le_refl _) (by omega)
    exact .inr ⟨if_neg h1, hmem, hpos⟩

theorem Holds.pop (h : Holds q s) (hhead : q.peek = some x) :
    Holds (q.pop cmppri pri) (s.erase x) := by
  obtain ⟨hnone, -⟩ | ⟨hsome, hmem, hpos⟩ := h.peek
  · rw [hnone] at hhead
    cases hhead
  · rw [hsome] at hhead
    cases hhead
    have hdown : Holds ((q.vacate (q.pos (q.d 1))).percolateDown cmppri pri (q.pos (q.d 1)))
        (s.erase (q.d 1)) := h.percolate_vacate hmem
    rwa [hpos] at hdown

/-! ## The order -/

omit [DecidableEq α] in
/-- The order around an element of the heap whose priority changes. -/
theorem Ordered.gap (h : Ordered pri q)
    (heq : ∀ j, 1 ≤ j → j < q.size → j ≠ i → pri' (q.d j) = pri (q.d j)) : Gap pri' q i where
  edge j hj hjs hne hhalf := by
    rw [heq (j / 2) (by omega) (by omega) hhalf, heq j (by omega) hjs hne]
    exact h j hj hjs
  skip hi j hjs hhalf := by
    rw [heq (i / 2) (by omega) (by omega) (by omega), heq j (by omega) hjs (by omega)]
    have hup := h i hi (by omega)
    have hdown := h j (by omega) hjs
    rw [hhalf] at hdown
    exact Nat.le_trans hup hdown

section

variable (hcmp : ∀ next curr, cmppri next curr = decide (curr < next))

include hcmp

/-- The priority of an element of the queue becomes any other. -/
theorem Holds.ordered_changePriority (hs : Holds q s) (h : Ordered pri q) (hx : x ∈ s) (newPri : Nat) :
    Ordered (update pri x newPri) (q.changePriority cmppri pri newPri x).2 := by
  obtain ⟨hpos, hlt, hd⟩ := hs.d_pos hx
  have hother {j : Nat} (hj : 1 ≤ j) (hjs : j < q.size) (hne : j ≠ q.pos x) :
      update pri x newPri (q.d j) = pri (q.d j) := by
    refine update_of_ne (fun heq => hne ?_) ..
    rw [← heq, (hs.pos_d hj hjs).1]
  have hgap : Gap (update pri x newPri) q (q.pos x) := h.gap fun j => hother
  unfold Pqueue.changePriority
  dsimp only
  rw [hcmp]
  split
  · rename_i hc
    rw [decide_eq_true_eq] at hc
    refine Gap.bubbleUpLoop hcmp hgap (fun j hj hjs hhalf => ?_) (Nat.le_refl _)
    have hchild := h j hj hjs
    rw [hhalf, hd] at hchild
    rw [hd, update_self, hother (by omega) hjs (by omega)]
    omega
  · rename_i hc
    rw [decide_eq_true_eq] at hc
    refine Gap.percolateDownLoop hcmp hgap (fun hi => ?_) hpos (by omega)
    have hparent := h (q.pos x) hi hlt
    rw [hd] at hparent
    rw [hd, update_self, hother (by omega) (by omega) (by omega)]
    omega

/-- An element leaves the queue. -/
theorem Holds.ordered_remove (hs : Holds q s) (h : Ordered pri q) (hx : x ∈ s) :
    Ordered pri (q.remove cmppri pri x) := by
  obtain ⟨hpos, hlt, hd⟩ := hs.d_pos hx
  have hmoved : (q.vacate (q.pos x)).d (q.pos x) = q.d (q.size - 1) := by rw [vacate_d, if_pos rfl]
  have hold {j : Nat} (hj : j ≠ q.pos x) : (q.vacate (q.pos x)).d j = q.d j := by
    rw [vacate_d, if_neg hj]
  have hgap : Gap pri (q.vacate (q.pos x)) (q.pos x) := by
    refine ⟨fun j hj hjs hne hhalf => ?_, fun hi j hjs hhalf => ?_⟩
    · change j < q.size - 1 at hjs
      rw [hold hhalf, hold hne]
      exact h j hj (by omega)
    · change j < q.size - 1 at hjs
      rw [hold (by omega), hold (by omega)]
      have hup := h (q.pos x) hi hlt
      have hdown := h j (by omega) (by omega)
      rw [hhalf] at hdown
      exact Nat.le_trans hup hdown
  change Ordered pri (if cmppri (pri x) (pri ((q.vacate (q.pos x)).d (q.pos x))) then
    (q.vacate (q.pos x)).bubbleUp cmppri pri (q.pos x)
    else (q.vacate (q.pos x)).percolateDown cmppri pri (q.pos x))
  rw [hcmp, hmoved]
  split
  · rename_i hc
    rw [decide_eq_true_eq] at hc
    refine Gap.bubbleUpLoop hcmp hgap (fun j hj hjs hhalf => ?_) (Nat.le_refl _)
    change j < q.size - 1 at hjs
    have hchild := h j hj (by omega)
    rw [hhalf, hd] at hchild
    rw [hmoved, hold (by omega)]
    omega
  · rename_i hc
    rw [decide_eq_true_eq] at hc
    refine Gap.percolateDownLoop hcmp hgap (fun hi => ?_) hpos (by omega)
    have hparent := h (q.pos x) hi hlt
    rw [hd] at hparent
    rw [hmoved, hold (by omega)]
    omega

/-! ## Runs -/

/-- The invariant of a run. -/
structure Queued.Inv (s : Queued α) : Prop where
  holds : Holds s.q s.members
  ordered : Ordered s.pri s.q

theorem Queued.Inv.popped {s : Queued α} (h : s.Inv) : (s.popped cmppri).Inv := by
  unfold Queued.popped
  split
  · exact h
  · rename_i x hhead
    exact ⟨h.holds.pop hhead, h.ordered.pop hcmp⟩

theorem Queued.Inv.step {s : Queued α} (h : s.Inv) {op : Op α} (hop : s.Proper op) :
    Total (s.step cmppri op) Queued.Inv := by
  cases op with
  | assign x newPri =>
    refine .ret ⟨h.holds, h.ordered.congr fun j hj hjs => update_of_ne ?_ ..⟩
    rintro rfl
    exact hop (h.holds.pos_d hj hjs).2
  | insert x =>
    have hspace : s.q.size < s.q.avail := by
      rw [h.holds.size]
      exact hop.2
    unfold Queued.step Pqueue.insert
    rw [ensure_of _ hspace]
    exact .ret ⟨h.holds.push hop.1, h.ordered.push hcmp⟩
  | changePriority newPri x =>
    refine .ret ⟨h.holds.changePriority hop newPri, ?_⟩
    have hpri : (s.q.changePriority cmppri s.pri newPri x).1 = update s.pri x newPri := by
      unfold Pqueue.changePriority
      dsimp only
      split <;> rfl
    change Ordered (s.q.changePriority cmppri s.pri newPri x).1 _
    rw [hpri]
    exact h.holds.ordered_changePriority hcmp h.ordered hop newPri
  | remove x => exact .ret ⟨h.holds.remove hcmp hop, h.holds.ordered_remove hcmp h.ordered hop⟩
  | pop => exact .ret (h.popped hcmp)

theorem Queued.Inv.run {n : Nat} {d : Nat → α} {ops : List (Op α)}
    (hproper : Always (Queued.step cmppri) Queued.Proper { q := init n d, pri } ops) :
    Total (ops.foldlM (Queued.step cmppri) { q := init n d, pri }) Queued.Inv :=
  Total.always ⟨holds_init n d, ordered_init pri n d⟩ hproper fun _ h _ _ hop => h.step hcmp hop

end

omit [DecidableEq α] in
/-- The head has the least priority. -/
theorem Queued.Inv.head_le {s : Queued α} (h : s.Inv) (hhead : s.q.peek = some x) :
    x ∈ s.members ∧ ∀ y ∈ s.members, s.pri x ≤ s.pri y := by
  obtain ⟨hnone, -⟩ | ⟨hsome, hmem, -⟩ := h.holds.peek
  · rw [hnone] at hhead
    cases hhead
  · rw [hsome] at hhead
    cases hhead
    refine ⟨hmem, fun y hy => ?_⟩
    obtain ⟨hpos, hlt, hd⟩ := h.holds.d_pos hy
    rw [← hd]
    exact h.ordered.head_le hpos hlt

/-- The pops of a queue give its members in order. -/
theorem Queued.Inv.drain (hcmp : ∀ next curr, cmppri next curr = decide (curr < next)) {s : Queued α}
    (h : s.Inv) {n : Nat} (hn : s.members.card ≤ n) :
    (s.drain cmppri n).Pairwise (s.pri · ≤ s.pri ·) ∧ (s.drain cmppri n : Multiset α) = s.members.val := by
  induction n generalizing s with
  | zero =>
    have hempty : s.members = ∅ := Finset.card_eq_zero.mp (by omega)
    exact ⟨.nil, by rw [hempty]; rfl⟩
  | succ n ih =>
    obtain ⟨hnone, hempty⟩ | ⟨hsome, hmem, -⟩ := h.holds.peek
    · unfold Queued.drain
      rw [hnone, hempty]
      exact ⟨.nil, rfl⟩
    · have hstep : s.popped cmppri =
          { s with q := s.q.pop cmppri s.pri, members := s.members.erase (s.q.d 1) } := by
        unfold Queued.popped
        rw [hsome]
      have hnext := h.popped hcmp
      have hcard := Finset.card_erase_add_one hmem
      obtain ⟨hsorted, hperm⟩ := ih hnext (by rw [hstep]; dsimp only; omega)
      unfold Queued.drain
      rw [hsome]
      dsimp only
      rw [hstep] at hsorted hperm ⊢
      dsimp only at hsorted hperm
      refine ⟨.cons (fun y hy => (h.head_le hsome).2 y ?_) hsorted, ?_⟩
      · have hy' : y ∈ (s.members.erase (s.q.d 1)).val := by
          rw [← hperm]
          exact hy
        exact Finset.mem_of_mem_erase hy'
      · rw [← Multiset.cons_coe, hperm, Finset.erase_val]
        exact Multiset.cons_erase hmem

/-- The queue has as many elements as it has members, is valid, and has each member at its position; it has a
head exactly if it has members, and the head has the least priority. -/
structure Queued.LeastFirst (cmppri : Nat → Nat → Bool) (s : Queued α) : Prop where
  size : s.q.size = s.members.card + 1
  valid : s.q.isValid cmppri s.pri = true
  position : ∀ x ∈ s.members, s.q.pos x < s.q.size ∧ s.q.d (s.q.pos x) = x
  empty : s.q.peek = none ↔ s.members = ∅
  head : ∀ x, s.q.peek = some x → x ∈ s.members ∧ ∀ y ∈ s.members, s.pri x ≤ s.pri y

/-- Four elements with the priorities 4, 3, 2 and 1; then the priority of 3 becomes 5, and 1 is removed. -/
def callsOnFour : List (Op Nat) :=
  [.insert 0, .insert 1, .insert 2, .insert 3, .changePriority 5 3, .remove 1, .pop]

/-- After every run of proper calls, popping the queue until it is empty gives each member once, in the
order of the priorities. -/
theorem pqueue_drains_sorted (hcmp : ∀ next curr, cmppri next curr = decide (curr < next)) (n : Nat)
    (d : Nat → α) {ops : List (Op α)}
    (hproper : Always (Queued.step cmppri) Queued.Proper { q := init n d, pri } ops) :
    Total (ops.foldlM (Queued.step cmppri) { q := init n d, pri }) fun s =>
      (s.drain cmppri (s.q.size - 1)).Pairwise (s.pri · ≤ s.pri ·) ∧
        (s.drain cmppri (s.q.size - 1) : Multiset α) = s.members.val := by
  refine (Queued.Inv.run hcmp hproper).mono fun s h => ?_
  exact h.drain hcmp (by rw [h.holds.size]; omega)

theorem pqueue_drains_sorted_four :
    Total ((callsOnFour.take 6).foldlM (Queued.step fun next curr => decide (curr < next))
      { q := init 4 id, pri := fun x => 4 - x }) fun s =>
        (s.drain (fun next curr => decide (curr < next)) (s.q.size - 1)).Pairwise (s.pri · ≤ s.pri ·) ∧
          (s.drain (fun next curr => decide (curr < next)) (s.q.size - 1) : Multiset Nat) = s.members.val :=
  pqueue_drains_sorted (fun _ _ => rfl) 4 id (by decide)

end Pqueue

end Nvmev
