import Mathlib.Logic.Function.Basic
import Mathlib.Order.Interval.Finset.Nat
import Mathlib.Tactic.Common
import NvmeVirt.Nvme

/-!
# The priority queue

`pqueue.c`, a binary heap of pointers. The queue reads and writes two fields of its elements through
callbacks: their priority, which is an argument `pri` here, and their position in the heap, `pos`,
which is part of the queue here. Position 0 is not used, so an element whose `pos` is 0 is outside.

A queue does not grow: where `pqueue_insert` finds no space, it logs this and writes past the array.

`Filled q`: the elements between 1 and `size` and their positions agree. Both sifts move elements
into a hole and fill it in the end; `Hole` is what holds in between.
-/

namespace Nvmev

open Function

/-- `pqueue_t`, with the field `pos` of its elements. `d` has `avail` elements, and is used from index 1 to
below `size`. -/
structure Pqueue (α : Type) where
  size : Nat
  avail : Nat
  d : Nat → α
  pos : α → Nat

namespace Pqueue

variable {α : Type} [DecidableEq α] (cmppri : Nat → Nat → Bool) (pri : α → Nat)

/-- `q->d[i] = x; q->setpos(x, i)`. -/
def place (q : Pqueue α) (i : Nat) (x : α) : Pqueue α :=
  { q with d := update q.d i x, pos := update q.pos x i }

/-- The loop of `bubble_up`: the position that is left for the moving node. -/
def bubbleUpLoop (moving : α) : Nat → Nat → Pqueue α → Nat × Pqueue α
  | 0, i, q => (i, q)
  | fuel + 1, i, q =>
    if 1 < i ∧ cmppri (pri (q.d (i / 2))) (pri moving) then
      bubbleUpLoop moving fuel (i / 2) (q.place i (q.d (i / 2)))
    else (i, q)

/-- `bubble_up`. Each turn halves the position. -/
def bubbleUp (q : Pqueue α) (i : Nat) : Pqueue α :=
  let (j, q') := bubbleUpLoop cmppri pri (q.d i) i i q
  q'.place j (q.d i)

/-- `maxchild`. -/
def maxchild (q : Pqueue α) (i : Nat) : Nat :=
  let child := 2 * i
  if q.size ≤ child then 0
  else if child + 1 < q.size ∧ cmppri (pri (q.d child)) (pri (q.d (child + 1))) then child + 1
  else child

/-- The loop of `percolate_down`. -/
def percolateDownLoop (moving : α) : Nat → Nat → Pqueue α → Nat × Pqueue α
  | 0, i, q => (i, q)
  | fuel + 1, i, q =>
    let child := maxchild cmppri pri q i
    if child ≠ 0 ∧ cmppri (pri moving) (pri (q.d child)) then
      percolateDownLoop moving fuel child (q.place i (q.d child))
    else (i, q)

/-- `percolate_down`. Each turn doubles the position. -/
def percolateDown (q : Pqueue α) (i : Nat) : Pqueue α :=
  let (j, q') := percolateDownLoop cmppri pri (q.d i) q.size i q
  q'.place j (q.d i)

/-- `pqueue_init`, for `n` elements. -/
def init (n : Nat) (d : Nat → α) : Pqueue α := { size := 1, avail := n + 1, d, pos := fun _ => 0 }

/-- `pqueue_insert` on a queue with space. -/
def push (q : Pqueue α) (x : α) : Pqueue α :=
  bubbleUp cmppri pri { q with size := q.size + 1, d := update q.d q.size x } q.size

/-- `pqueue_insert`. -/
def insert (q : Pqueue α) (x : α) : Except Bug (Pqueue α) := do
  Outcome.ensure (q.size < q.avail) (.outOfBounds .pqueueInsert)
  pure (push cmppri pri q x)

/-- `pqueue_change_priority`, with the priorities after it. -/
def changePriority (q : Pqueue α) (newPri : Nat) (x : α) : (α → Nat) × Pqueue α :=
  let pri' := update pri x newPri
  if cmppri (pri x) newPri then (pri', bubbleUp cmppri pri' q (q.pos x))
  else (pri', percolateDown cmppri pri' q (q.pos x))

/-- `pqueue_peek`. -/
def peek (q : Pqueue α) : Option α := if q.size = 1 then none else some (q.d 1)

/-- `pqueue_pop` on a queue that is not empty, without its result. -/
def pop (q : Pqueue α) : Pqueue α :=
  percolateDown cmppri pri { q with size := q.size - 1, d := update q.d 1 (q.d (q.size - 1)) } 1

/-- `pqueue_remove` on an element of the queue. -/
def remove (q : Pqueue α) (x : α) : Pqueue α :=
  let posn := q.pos x
  let q' := { q with size := q.size - 1, d := update q.d posn (q.d (q.size - 1)) }
  if cmppri (pri x) (pri (q'.d posn)) then bubbleUp cmppri pri q' posn
  else percolateDown cmppri pri q' posn

/-! ## Positions -/

/-- The elements and their positions agree; what is `gone` is no element. -/
structure Filled (q : Pqueue α) (gone : α → Prop) : Prop where
  pos_d : ∀ j, 1 ≤ j → j < q.size → q.pos (q.d j) = j ∧ ¬ gone (q.d j)
  d_pos : ∀ x, ¬ gone x → q.pos x ≠ 0 → q.pos x < q.size ∧ q.d (q.pos x) = x

/-- Position `i` is a hole, and `m` has no position. -/
structure Hole (q : Pqueue α) (gone : α → Prop) (i : Nat) (m : α) : Prop where
  moving : ¬ gone m
  pos_d : ∀ j, 1 ≤ j → j < q.size → j ≠ i → q.pos (q.d j) = j ∧ ¬ gone (q.d j) ∧ q.d j ≠ m
  d_pos : ∀ x, ¬ gone x → x ≠ m → q.pos x ≠ 0 → q.pos x < q.size ∧ q.pos x ≠ i ∧ q.d (q.pos x) = x

section

variable {q : Pqueue α} {gone : α → Prop} {i : Nat} {m : α}

@[simp] theorem place_size (x : α) : (q.place i x).size = q.size := rfl

/-- The element at `p` moves to the hole. -/
theorem Hole.move (h : Hole q gone i m) {p : Nat} (hp : 1 ≤ p) (hps : p < q.size) (hpi : p ≠ i)
    (hi : 1 ≤ i) (his : i < q.size) : Hole (q.place i (q.d p)) gone p m := by
  obtain ⟨hposp, hpg, hpm⟩ := h.pos_d p hp hps hpi
  refine ⟨h.moving, ?_, ?_⟩
  · intro j hj hjs hjp
    by_cases hji : j = i
    · subst hji
      simp [place, hpg, hpm]
    · obtain ⟨hposj, hjg, hjm⟩ := h.pos_d j hj hjs hji
      have hne : q.d j ≠ q.d p := by
        intro he
        rw [he, hposp] at hposj
        exact hjp hposj.symm
      simp [place, hji, hne, hposj, hjg, hjm]
  · intro x hx hxm hpos
    by_cases hxp : x = q.d p
    · subst hxp
      simp [place, his, Ne.symm hpi]
    · simp only [place, update_of_ne hxp] at hpos ⊢
      obtain ⟨hlt, hne, hd⟩ := h.d_pos x hx hxm hpos
      refine ⟨hlt, ?_, by rw [update_of_ne hne, hd]⟩
      intro he
      rw [he] at hd
      exact hxp hd.symm

/-- The moving node fills the hole. -/
theorem Hole.fill (h : Hole q gone i m) (his : i < q.size) : Filled (q.place i m) gone := by
  constructor
  · intro j hj hjs
    by_cases hji : j = i
    · subst hji
      simp [place, h.moving]
    · obtain ⟨hposj, hjg, hjm⟩ := h.pos_d j hj hjs hji
      simp [place, hji, hjm, hjg, hposj]
  · intro x hx hpos
    by_cases hxm : x = m
    · subst hxm
      simp [place, his]
    · simp only [place, update_of_ne hxm] at hpos ⊢
      obtain ⟨hlt, hne, hd⟩ := h.d_pos x hx hxm hpos
      exact ⟨hlt, by rw [update_of_ne hne, hd]⟩

/-- What a sift leaves: a filled queue of the same size that also holds `m`. -/
structure Sifted (q q' : Pqueue α) (gone : α → Prop) (m : α) : Prop where
  size : q'.size = q.size
  filled : Filled q' gone
  mem : ∀ x, q'.pos x ≠ 0 ↔ q.pos x ≠ 0 ∨ x = m

theorem place_pos_ne_zero {x : α} (hi : 1 ≤ i) (hx : q.pos x ≠ 0) (y : α) :
    (q.place i x).pos y ≠ 0 ↔ q.pos y ≠ 0 := by
  by_cases hy : y = x
  · subst hy
    simp only [place, update_self]
    exact ⟨fun _ => hx, fun _ => by omega⟩
  · simp [place, hy]

theorem sifted_fill (h : Hole q gone i m) (hi : 1 ≤ i) (his : i < q.size) :
    Sifted q (q.place i m) gone m where
  size := rfl
  filled := h.fill his
  mem x := by
    by_cases hx : x = m
    · subst hx
      simp only [place, update_self, or_true, iff_true]
      omega
    · simp [place, hx]

theorem Sifted.of_move {q' : Pqueue α} {p : Nat} (hs : Sifted (q.place i (q.d p)) q' gone m)
    (h : Hole q gone i m) (hp : 1 ≤ p) (hps : p < q.size) (hpi : p ≠ i) (hi : 1 ≤ i) :
    Sifted q q' gone m where
  size := hs.size
  filled := hs.filled
  mem x := by
    have hpos := (h.pos_d p hp hps hpi).1
    rw [hs.mem x, place_pos_ne_zero hi (by omega)]

theorem sifted_bubbleUpLoop {fuel : Nat} (h : Hole q gone i m) (hi : 1 ≤ i) (his : i < q.size) :
    Sifted q ((bubbleUpLoop cmppri pri m fuel i q).2.place (bubbleUpLoop cmppri pri m fuel i q).1 m)
      gone m := by
  induction fuel generalizing i q with
  | zero => exact sifted_fill h hi his
  | succ fuel ih =>
    unfold bubbleUpLoop
    split
    · rename_i hc
      have hp : 1 ≤ i / 2 := by omega
      have hpi : i / 2 ≠ i := by omega
      have hmove := h.move hp (by omega) hpi hi his
      exact (ih hmove hp (by simp; omega)).of_move h hp (by omega) hpi hi
    · exact sifted_fill h hi his

omit [DecidableEq α] in
theorem maxchild_cases (q : Pqueue α) (i : Nat) :
    maxchild cmppri pri q i = 0 ∨
      (maxchild cmppri pri q i < q.size ∧ 2 * i ≤ maxchild cmppri pri q i) := by
  unfold maxchild
  simp only []
  split
  · exact .inl rfl
  · split <;> omega

theorem sifted_percolateDownLoop {fuel : Nat} (h : Hole q gone i m) (hi : 1 ≤ i)
    (his : i < q.size) :
    Sifted q ((percolateDownLoop cmppri pri m fuel i q).2.place
      (percolateDownLoop cmppri pri m fuel i q).1 m) gone m := by
  induction fuel generalizing i q with
  | zero => exact sifted_fill h hi his
  | succ fuel ih =>
    unfold percolateDownLoop
    simp only []
    split
    · rename_i hc
      obtain h0 | ⟨hlt, hle⟩ := maxchild_cases cmppri pri q i
      · exact absurd h0 hc.1
      · have hmove := h.move (by omega) hlt (by omega) hi his
        exact (ih hmove (by omega) (by simpa using hlt)).of_move h (by omega) hlt (by omega) hi
    · exact sifted_fill h hi his

theorem sifted_bubbleUp (h : Hole q gone i (q.d i)) (hi : 1 ≤ i) (his : i < q.size) :
    Sifted q (bubbleUp cmppri pri q i) gone (q.d i) :=
  sifted_bubbleUpLoop cmppri pri h hi his

theorem sifted_percolateDown (h : Hole q gone i (q.d i)) (hi : 1 ≤ i) (his : i < q.size) :
    Sifted q (percolateDown cmppri pri q i) gone (q.d i) :=
  sifted_percolateDownLoop cmppri pri h hi his

/-! ## The operations -/

/-- The elements and their positions agree. -/
structure Wf (q : Pqueue α) : Prop where
  size : 1 ≤ q.size
  filled : Filled q fun _ => False

omit [DecidableEq α] in
theorem wf_init (n : Nat) (d : Nat → α) : Wf (init n d) where
  size := Nat.le_refl _
  filled := ⟨fun j hj hjs => by simp only [init] at hjs; omega, fun x _ hx => absurd rfl hx⟩

variable {x : α}

omit [DecidableEq α] in
/-- An element at its position. -/
theorem Wf.d_pos (h : Wf q) (hx : q.pos x ≠ 0) : q.pos x < q.size ∧ q.d (q.pos x) = x :=
  h.filled.d_pos x id hx

/-- The elements in the order of the heap. -/
def elements (q : Pqueue α) : List α := (List.range' 1 (q.size - 1)).map q.d

omit [DecidableEq α] in
theorem Wf.mem_elements (h : Wf q) : x ∈ q.elements ↔ q.pos x ≠ 0 := by
  unfold elements
  simp only [List.mem_map, List.mem_range'_1]
  constructor
  · rintro ⟨i, ⟨h1, h2⟩, rfl⟩
    rw [(h.filled.pos_d i h1 (by omega)).1]
    omega
  · intro hx
    obtain ⟨hlt, hd⟩ := h.d_pos hx
    exact ⟨q.pos x, ⟨by omega, by omega⟩, hd⟩

omit [DecidableEq α] in
theorem Wf.nodup_elements (h : Wf q) : q.elements.Nodup := by
  have hpos {i : Nat} (hi : i ∈ List.range' 1 (q.size - 1)) : q.pos (q.d i) = i := by
    obtain ⟨h1, h2⟩ := List.mem_range'_1.mp hi
    exact (h.filled.pos_d i h1 (by omega)).1
  refine List.Nodup.map_on (fun i hi j hj hd => ?_) List.nodup_range'
  rw [← hpos hi, ← hpos hj, hd]

omit [DecidableEq α] in
@[simp] theorem length_elements (q : Pqueue α) : q.elements.length = q.size - 1 := by
  simp [elements]

omit [DecidableEq α] in
/-- A queue of members of `s` is not larger than `s`. -/
theorem Wf.size_le (h : Wf q) {s : Finset α} (hs : ∀ x, q.pos x ≠ 0 → x ∈ s) :
    q.size ≤ s.card + 1 := by
  have hpos {i : Nat} (hi : i ∈ Finset.Ico 1 q.size) : q.pos (q.d i) = i := by
    obtain ⟨h1, h2⟩ := Finset.mem_Ico.mp hi
    exact (h.filled.pos_d i h1 h2).1
  have hcard := Finset.card_le_card_of_injOn q.d (s := Finset.Ico 1 q.size) (t := s)
    (fun i hi => hs _ (by rw [hpos hi]; have := (Finset.mem_Ico.mp hi).1; omega))
    (fun i hi j hj hd => by rw [← hpos hi, ← hpos hj, hd])
  rw [Nat.card_Ico] at hcard
  omega

theorem Wf.sifted_push (h : Wf q) (hx : q.pos x = 0) :
    Sifted { q with size := q.size + 1, d := update q.d q.size x } (push cmppri pri q x)
      (fun _ => False) x := by
  have hd : ({ q with size := q.size + 1, d := update q.d q.size x } : Pqueue α).d q.size = x := by
    simp
  have hole : Hole { q with size := q.size + 1, d := update q.d q.size x } (fun _ => False)
      q.size x := by
    refine ⟨id, ?_, ?_⟩
    · intro j hj hjs hji
      simp only [update_of_ne hji]
      have hpos := (h.filled.pos_d j hj (by simp only [] at hjs; omega)).1
      refine ⟨hpos, id, ?_⟩
      rintro rfl
      omega
    · intro y _ hyx hy
      obtain ⟨hlt, hdy⟩ := h.d_pos hy
      have hne : q.pos y ≠ q.size := by omega
      simp only [update_of_ne hne]
      exact ⟨by omega, hne, hdy⟩
  have hs := sifted_bubbleUp cmppri pri (q := { q with size := q.size + 1, d := update q.d q.size x })
    (i := q.size) (by rw [hd]; exact hole) h.size (by simp)
  rwa [hd] at hs

theorem Wf.push (h : Wf q) (hx : q.pos x = 0) :
    Wf (push cmppri pri q x) ∧ (Pqueue.push cmppri pri q x).size = q.size + 1 ∧
      ∀ y, (Pqueue.push cmppri pri q x).pos y ≠ 0 ↔ q.pos y ≠ 0 ∨ y = x := by
  have hs := h.sifted_push cmppri pri hx
  exact ⟨⟨by rw [hs.size]; simp, hs.filled⟩, hs.size, hs.mem⟩

omit [DecidableEq α] in
theorem Wf.hole (h : Wf q) (hx : q.pos x ≠ 0) : Hole q (fun _ => False) (q.pos x) x := by
  refine ⟨id, ?_, ?_⟩
  · intro j hj hjs hji
    have hpos := (h.filled.pos_d j hj hjs).1
    refine ⟨hpos, id, ?_⟩
    rintro rfl
    exact hji hpos.symm
  · intro y _ hyx hy
    obtain ⟨hlt, hdy⟩ := h.d_pos hy
    refine ⟨hlt, ?_, hdy⟩
    intro he
    rw [he, (h.d_pos hx).2] at hdy
    exact hyx hdy.symm

omit [DecidableEq α] in
theorem Wf.sifted (h : Wf q) (hx : q.pos x ≠ 0) {q' : Pqueue α}
    (hs : Sifted q q' (fun _ => False) x) :
    Wf q' ∧ q'.size = q.size ∧ ∀ y, q'.pos y ≠ 0 ↔ q.pos y ≠ 0 := by
  refine ⟨⟨by rw [hs.size]; exact h.size, hs.filled⟩, hs.size, fun y => ?_⟩
  rw [hs.mem y]
  constructor
  · rintro (hy | rfl)
    · exact hy
    · exact hx
  · exact .inl

theorem Wf.changePriority (h : Wf q) (hx : q.pos x ≠ 0) (newPri : Nat) :
    (changePriority cmppri pri q newPri x).1 = update pri x newPri ∧
      Wf (changePriority cmppri pri q newPri x).2 ∧
      (Pqueue.changePriority cmppri pri q newPri x).2.size = q.size ∧
      ∀ y, (Pqueue.changePriority cmppri pri q newPri x).2.pos y ≠ 0 ↔ q.pos y ≠ 0 := by
  obtain ⟨hlt, hd⟩ := h.d_pos hx
  have hole : Hole q (fun _ => False) (q.pos x) (q.d (q.pos x)) := by
    rw [hd]
    exact h.hole hx
  unfold Pqueue.changePriority
  simp only []
  split
  · have hs := sifted_bubbleUp cmppri (update pri x newPri) hole (by omega) hlt
    rw [hd] at hs
    exact ⟨rfl, h.sifted hx hs⟩
  · have hs := sifted_percolateDown cmppri (update pri x newPri) hole (by omega) hlt
    rw [hd] at hs
    exact ⟨rfl, h.sifted hx hs⟩

omit [DecidableEq α] in
/-- `peek` is the element at position 1. -/
theorem Wf.peek (h : Wf q) (hs : q.size ≠ 1) : Pqueue.peek q = some (q.d 1) ∧ q.pos (q.d 1) = 1 := by
  have := h.size
  exact ⟨by simp [Pqueue.peek, hs], (h.filled.pos_d 1 (by omega) (by omega)).1⟩

theorem pop_singleton (hs : q.size = 2) :
    pop cmppri pri q =
      { size := 1, avail := q.avail, d := update q.d 1 (q.d 1), pos := update q.pos (q.d 1) 1 } := by
  simp [pop, hs, percolateDown, percolateDownLoop, maxchild, place]

omit [DecidableEq α] in
/-- The last element leaves the heap for the hole at the head. -/
theorem Wf.hole_pop (h : Wf q) (hs : 2 < q.size) :
    Hole { q with size := q.size - 1, d := update q.d 1 (q.d (q.size - 1)) } (fun y => y = q.d 1) 1
      (q.d (q.size - 1)) := by
  have hhead := (h.filled.pos_d 1 (by omega) (by omega)).1
  have hlast := (h.filled.pos_d (q.size - 1) (by omega) (by omega)).1
  refine ⟨fun he => ?_, ?_, ?_⟩
  · rw [he, hhead] at hlast
    omega
  · intro j hj hjs hj1
    simp only [] at hjs
    simp only [update_of_ne hj1]
    have hpos := (h.filled.pos_d j hj (by omega)).1
    refine ⟨hpos, fun he => ?_, fun he => ?_⟩
    · rw [he, hhead] at hpos
      omega
    · rw [he, hlast] at hpos
      omega
  · intro y hy hym hpos
    obtain ⟨hlt, hd⟩ := h.d_pos hpos
    simp only [] at hpos ⊢
    have hy1 : q.pos y ≠ 1 := by
      intro he
      rw [he] at hd
      exact hy hd.symm
    have hyl : q.pos y ≠ q.size - 1 := by
      intro he
      rw [he] at hd
      exact hym hd.symm
    exact ⟨by omega, hy1, by rw [update_of_ne hy1, hd]⟩

/-- What `pop` leaves, once the position of the head is cleared. -/
theorem Wf.pop (h : Wf q) (hs : q.size ≠ 1) :
    Wf { pop cmppri pri q with pos := update (pop cmppri pri q).pos (q.d 1) 0 } ∧
      (Pqueue.pop cmppri pri q).size = q.size - 1 ∧
      ∀ y, update (Pqueue.pop cmppri pri q).pos (q.d 1) 0 y ≠ 0 ↔ q.pos y ≠ 0 ∧ y ≠ q.d 1 := by
  have hsize := h.size
  by_cases h2 : q.size = 2
  · rw [pop_singleton cmppri pri h2]
    have hone {y : α} (hy : q.pos y ≠ 0) : y = q.d 1 := by
      obtain ⟨hlt, hd⟩ := h.d_pos hy
      rw [show q.pos y = 1 by omega] at hd
      exact hd.symm
    refine ⟨⟨Nat.le_refl _, fun j hj hjs => by simp only [] at hjs; omega, fun y _ hy => ?_⟩,
      by simp [h2], fun y => ?_⟩
    · by_cases hyd : y = q.d 1
      · simp [hyd] at hy
      · simp only [update_of_ne hyd] at hy
        exact absurd (hone hy) hyd
    · by_cases hyd : y = q.d 1
      · simp [hyd]
      · simp only [update_of_ne hyd, ne_eq, hyd, not_false_eq_true, and_true]
  · have hlast := (h.filled.pos_d (q.size - 1) (by omega) (by omega)).1
    have hole := h.hole_pop (by omega)
    have hd1 : ({ q with size := q.size - 1, d := update q.d 1 (q.d (q.size - 1)) } : Pqueue α).d 1 =
        q.d (q.size - 1) := by
      simp
    rw [← hd1] at hole
    have hsift := sifted_percolateDown cmppri pri hole (Nat.le_refl _) (by simp only []; omega)
    change Sifted _ (Pqueue.pop cmppri pri q) _ _ at hsift
    refine ⟨⟨by simp only [hsift.size]; omega, fun j hj hjs => ?_, fun y _ hy => ?_⟩, hsift.size,
      fun y => ?_⟩
    · obtain ⟨hpos, hgone⟩ := hsift.filled.pos_d j hj hjs
      exact ⟨by simp only [update_of_ne hgone]; exact hpos, id⟩
    · by_cases hyd : y = q.d 1
      · simp [hyd] at hy
      · simp only [update_of_ne hyd] at hy ⊢
        exact hsift.filled.d_pos y hyd hy
    · by_cases hyd : y = q.d 1
      · simp [hyd]
      · rw [update_of_ne hyd, hsift.mem y]
        simp only [update_self]
        constructor
        · rintro (hy | rfl)
          · exact ⟨hy, hyd⟩
          · exact ⟨by omega, hyd⟩
        · exact fun hy => .inl hy.1

end

end Pqueue

end Nvmev
