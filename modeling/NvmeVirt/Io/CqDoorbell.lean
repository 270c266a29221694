import NvmeVirt.Io.CompletionQueue

/-!
# The head doorbell of a completion queue

What `nvmev_proc_io_cq` does from one doorbell value of the queue to another. The loop takes the slots
that the host has freed, one after the other around the ring. At the wrap it reads the entry behind the
last one: `cq_entry(i)` stands before the comparison of `i` with `queue_size`.
-/

namespace Nvmev

open CInt Function PhaseRing

namespace Cq

/-- The slots from one doorbell value to the next, around the ring. -/
def freedSlots (queueSize oldDb newDb : Nat) : List Nat :=
  List.iterate (next queueSize) oldDb ((newDb + queueSize - oldDb) % queueSize)

/-- The loop from slot `oldDb` to slot `newDb` visits the freed slots and reads nothing but entries of
the queue. -/
structure VisitsFreed (cq : CompletionQueue) (oldDb newDb : Nat) (sqes : Nat → Option Nat) : Prop where
  /-- The loop ends: no bound on its turns above the one of the model changes what it does. -/
  ends : ∀ fuel ≥ cq.queueSize + 2,
    procIoCqLoop cq newDb fuel oldDb { reads := [], sqes } = (nvmevProcIoCq cq newDb oldDb sqes).2
  reads : ∀ i ∈ (nvmevProcIoCq cq newDb oldDb sqes).2.reads, 0 ≤ i ∧ i < cq.queueSize
  visits : (nvmevProcIoCq cq newDb oldDb sqes).2.reads.filter (· < (cq.queueSize : Int)) =
    (freedSlots cq.queueSize oldDb newDb).map Nat.cast
  /-- One decrement for each visited entry of a queue that exists. -/
  inFlight : ∀ sqid, (nvmevProcIoCq cq newDb oldDb sqes).2.sqes sqid = (sqes sqid).map
    dec32^[(freedSlots cq.queueSize oldDb newDb).countP fun i => (cq.cq i).sqId = sqid]

section Loop

variable {cq : CompletionQueue}

/-- The loop at a slot of the queue. -/
def visitSlot (cq : CompletionQueue) (s : CqScan) (i : Nat) : CqScan :=
  { s with reads := s.reads ++ [(i : Int)] }.decrement (cq.cq i).sqId

theorem decrement_reads (s : CqScan) (sqid : Nat) : (s.decrement sqid).reads = s.reads := by
  unfold CqScan.decrement
  split <;> rfl

theorem decrement_sqes (s : CqScan) (q sqid : Nat) :
    (s.decrement q).sqes sqid = (s.sqes sqid).map dec32^[if q = sqid then 1 else 0] := by
  unfold CqScan.decrement
  by_cases hq : q = sqid
  · subst hq
    rw [if_pos rfl, iterate_one]
    split
    · rename_i hnone
      rw [hnone]
      rfl
    · rename_i n hsome
      rw [hsome]
      exact update_self ..
  · rw [if_neg hq, iterate_zero, Option.map_id]
    split
    · rfl
    · exact update_of_ne (Ne.symm hq) _ _

/-- What the visits of `slots` leave. -/
theorem visits_eq (slots : List Nat) (s : CqScan) :
    (slots.foldl (visitSlot cq) s).reads = s.reads ++ slots.map Nat.cast ∧
      ∀ sqid, (slots.foldl (visitSlot cq) s).sqes sqid =
        (s.sqes sqid).map dec32^[slots.countP fun i => (cq.cq i).sqId = sqid] := by
  induction slots generalizing s with
  | nil => exact ⟨by simp, fun sqid => by simp⟩
  | cons i slots ih =>
    obtain ⟨hreads, hsqes⟩ := ih (visitSlot cq s i)
    constructor
    · rw [List.foldl_cons, hreads, visitSlot, decrement_reads]
      simp
    · intro sqid
      rw [List.foldl_cons, hsqes, visitSlot, decrement_sqes, Option.map_map, ← iterate_add,
        List.countP_cons]
      simp only [decide_eq_true_eq]

/-- The turns of the loop at slots below `queue_size`. -/
theorem procIoCqLoop_slots {newDb : Int} {fuel a k : Nat} (hk : k ≤ fuel) (hend : a + k ≤ cq.queueSize)
    (hne : ∀ j, a ≤ j → j < a + k → (j : Int) ≠ newDb) (s : CqScan) :
    procIoCqLoop cq newDb fuel a s =
      procIoCqLoop cq newDb (fuel - k) ((a + k : Nat) : Int)
        ((List.range' a k).foldl (visitSlot cq) s) := by
  induction k generalizing fuel a s with
  | zero => rfl
  | succ k ih =>
    obtain ⟨fuel, rfl⟩ : ∃ m, fuel = m + 1 := ⟨fuel - 1, by omega⟩
    rw [procIoCqLoop, if_neg (hne a (by omega) (by omega)), if_neg (by omega),
      show (a : Int) + 1 = ((a + 1 : Nat) : Int) from rfl,
      ih (by omega) (by omega) (fun j h1 h2 => hne j (by omega) (by omega)), List.range'_succ,
      List.foldl_cons, show fuel + 1 - (k + 1) = fuel - k by omega,
      show a + 1 + k = a + (k + 1) by omega]
    rfl

theorem procIoCqLoop_end (newDb : Int) (fuel : Nat) (s : CqScan) :
    procIoCqLoop cq newDb fuel newDb s = s := by
  cases fuel with
  | zero => rfl
  | succ fuel => rw [procIoCqLoop, if_pos rfl]

variable {oldDb newDb : Nat} (sqes : Nat → Option Nat)

/-- Without a wrap. -/
theorem freedSlots_straight (hle : oldDb ≤ newDb) (hnew : newDb < cq.queueSize) :
    freedSlots cq.queueSize oldDb newDb = List.range' oldDb (newDb - oldDb) := by
  unfold freedSlots
  rw [show newDb + cq.queueSize - oldDb = newDb - oldDb + cq.queueSize by omega, Nat.add_mod_right,
    Nat.mod_eq_of_lt (by omega), iterate_next (by omega)]

/-- With one. -/
theorem freedSlots_wrap (hlt : newDb < oldDb) (hold : oldDb < cq.queueSize) :
    freedSlots cq.queueSize oldDb newDb =
      List.range' oldDb (cq.queueSize - oldDb) ++ List.range' 0 newDb := by
  unfold freedSlots
  rw [Nat.mod_eq_of_lt (by omega), show newDb + cq.queueSize - oldDb = cq.queueSize - oldDb + newDb by omega,
    iterate_next_wrap hold (by omega)]

theorem freedSlots_lt (hold : oldDb < cq.queueSize) (hnew : newDb < cq.queueSize) :
    ∀ i ∈ freedSlots cq.queueSize oldDb newDb, i < cq.queueSize := by
  intro i hi
  obtain hle | hlt := Nat.lt_or_ge newDb oldDb
  · rw [freedSlots_wrap hle hold] at hi
    simp only [List.mem_append, List.mem_range'_1] at hi
    omega
  · rw [freedSlots_straight hlt hnew] at hi
    simp only [List.mem_range'_1] at hi
    omega

/-- The turn at the end of the queue. -/
def wrapTurn (cq : CompletionQueue) (s : CqScan) : CqScan :=
  { s with reads := s.reads ++ [(cq.queueSize : Int)] }

/-- The loop visits the freed slots, and it reads the entry behind the last one exactly at a wrap. -/
theorem procIoCqLoop_freed (hold : oldDb < cq.queueSize) (hnew : newDb < cq.queueSize) :
    ∃ l₁ l₂, freedSlots cq.queueSize oldDb newDb = l₁ ++ l₂ ∧
      ∀ fuel > cq.queueSize, ∀ s, procIoCqLoop cq newDb fuel oldDb s =
        l₂.foldl (visitSlot cq) (if newDb < oldDb then wrapTurn cq (l₁.foldl (visitSlot cq) s)
          else l₁.foldl (visitSlot cq) s) := by
  obtain hlt | hle := Nat.lt_or_ge newDb oldDb
  · refine ⟨_, _, freedSlots_wrap hlt hold, fun fuel hf s => ?_⟩
    rw [if_pos hlt,
      procIoCqLoop_slots (show cq.queueSize - oldDb ≤ fuel by omega) (by omega) (by omega),
      show oldDb + (cq.queueSize - oldDb) = cq.queueSize by omega]
    obtain ⟨m, hm⟩ : ∃ m, fuel - (cq.queueSize - oldDb) = m + 1 :=
      ⟨fuel - (cq.queueSize - oldDb) - 1, by omega⟩
    rw [hm, procIoCqLoop, if_neg (by omega), if_pos (Int.le_refl _),
      show (-1 + 1 : Int) = ((0 : Nat) : Int) from rfl,
      procIoCqLoop_slots (show newDb ≤ m by omega) (by omega) (by omega), Nat.zero_add,
      procIoCqLoop_end]
    rfl
  · refine ⟨_, [], (freedSlots_straight hle hnew).trans (List.append_nil _).symm, fun fuel hf s => ?_⟩
    rw [if_neg (by omega),
      procIoCqLoop_slots (show newDb - oldDb ≤ fuel by omega) (by omega) (by omega),
      show oldDb + (newDb - oldDb) = newDb by omega, procIoCqLoop_end]
    rfl

/-- The entries that the loop reads. -/
theorem procIoCqLoop_reads (hold : oldDb < cq.queueSize) (hnew : newDb < cq.queueSize) {fuel : Nat}
    (hf : cq.queueSize < fuel) :
    ∃ l₁ l₂, freedSlots cq.queueSize oldDb newDb = l₁ ++ l₂ ∧
      (procIoCqLoop cq newDb fuel oldDb { reads := [], sqes }).reads = l₁.map Nat.cast ++
        (if newDb < oldDb then [(cq.queueSize : Int)] else []) ++ l₂.map Nat.cast := by
  obtain ⟨l₁, l₂, hfreed, hloop⟩ := procIoCqLoop_freed hold hnew
  refine ⟨l₁, l₂, hfreed, ?_⟩
  rw [hloop fuel hf, (visits_eq _ _).1]
  split
  · rw [wrapTurn, (visits_eq _ _).1, List.nil_append]
  · rw [(visits_eq _ _).1, List.nil_append, List.append_nil]

/-- It takes one from `nr_in_flight` for each freed slot. -/
theorem procIoCqLoop_sqes (hold : oldDb < cq.queueSize) (hnew : newDb < cq.queueSize) {fuel : Nat}
    (hf : cq.queueSize < fuel) (sqid : Nat) :
    (procIoCqLoop cq newDb fuel oldDb { reads := [], sqes }).sqes sqid = (sqes sqid).map
      dec32^[(freedSlots cq.queueSize oldDb newDb).countP fun i => (cq.cq i).sqId = sqid] := by
  obtain ⟨l₁, l₂, hfreed, hloop⟩ := procIoCqLoop_freed hold hnew
  rw [hloop fuel hf, (visits_eq _ _).2, hfreed, List.countP_append, Nat.add_comm, iterate_add,
    ← Option.map_map]
  congr 1
  split <;> exact (visits_eq _ _).2 sqid

/-- Without the entry behind the last one, it has read the freed slots. -/
theorem procIoCqLoop_visits (hold : oldDb < cq.queueSize) (hnew : newDb < cq.queueSize) {fuel : Nat}
    (hf : cq.queueSize < fuel) :
    (procIoCqLoop cq newDb fuel oldDb { reads := [], sqes }).reads.filter (· < (cq.queueSize : Int)) =
      (freedSlots cq.queueSize oldDb newDb).map Nat.cast := by
  obtain ⟨l₁, l₂, hfreed, hreads⟩ := procIoCqLoop_reads sqes hold hnew hf
  have hlt := freedSlots_lt hold hnew
  rw [hfreed] at hlt
  have hkeep (l : List Nat) (hl : ∀ i ∈ l, i < cq.queueSize) :
      (l.map Nat.cast).filter (· < (cq.queueSize : Int)) = l.map (Nat.cast : Nat → Int) := by
    refine List.filter_eq_self.mpr fun i hi => ?_
    obtain ⟨j, hj, rfl⟩ := List.mem_map.mp hi
    exact decide_eq_true (Int.ofNat_lt.mpr (hl j hj))
  have hdrop : (if newDb < oldDb then [(cq.queueSize : Int)] else []).filter
      (· < (cq.queueSize : Int)) = [] := by
    split <;> simp
  rw [hreads, hfreed, List.filter_append, List.filter_append, hdrop, List.append_nil, List.map_append,
    hkeep l₁ fun i hi => hlt i (List.mem_append_left _ hi),
    hkeep l₂ fun i hi => hlt i (List.mem_append_right _ hi)]

/-- All it reads are entries of the queue exactly if it does not wrap. -/
theorem procIoCqLoop_inside_iff (hold : oldDb < cq.queueSize) (hnew : newDb < cq.queueSize) {fuel : Nat}
    (hf : cq.queueSize < fuel) :
    (∀ i ∈ (procIoCqLoop cq newDb fuel oldDb { reads := [], sqes }).reads, 0 ≤ i ∧ i < cq.queueSize) ↔
      oldDb ≤ newDb := by
  obtain ⟨l₁, l₂, hfreed, hreads⟩ := procIoCqLoop_reads sqes hold hnew hf
  have hlt := freedSlots_lt hold hnew
  rw [hreads]
  constructor
  · intro h
    by_contra hwrap
    have := h cq.queueSize (by rw [if_pos (by omega)]; simp)
    omega
  · intro hle i hi
    rw [if_neg (by omega), List.append_nil, ← List.map_append, ← hfreed] at hi
    obtain ⟨j, hj, rfl⟩ := List.mem_map.mp hi
    have := hlt j hj
    omega

end Loop

end Cq

/-- For every completion queue and all doorbell values of it: the loop of `nvmev_proc_io_cq` ends,
visits the freed slots in turn and counts them down, and it reads nothing but entries of the queue,
exactly if it does not wrap. A wrap reads the entry behind the last one. -/
theorem cq_doorbell_visits_iff (cq : CompletionQueue) (sqes : Nat → Option Nat) {oldDb newDb : Nat}
    (hold : oldDb < cq.queueSize) (hnew : newDb < cq.queueSize) :
    Cq.VisitsFreed cq oldDb newDb sqes ↔ oldDb ≤ newDb := by
  have hfuel : cq.queueSize < cq.queueSize + 2 := by omega
  have hinside := Cq.procIoCqLoop_inside_iff sqes hold hnew hfuel
  refine ⟨fun h => hinside.mp h.reads, fun hle => ⟨fun fuel hf => ?_, hinside.mpr hle,
    Cq.procIoCqLoop_visits sqes hold hnew hfuel, Cq.procIoCqLoop_sqes sqes hold hnew hfuel⟩⟩
  obtain ⟨l₁, l₂, -, hloop⟩ := Cq.procIoCqLoop_freed hold hnew
  rw [hloop fuel (by omega)]
  exact (hloop _ hfuel _).symm

theorem cq_doorbell_visits_iff_page :
    Cq.VisitsFreed (adminCreateCq 255 clearedQueue) 3 7 (fun _ => some 9) ↔ 3 ≤ 7 :=
  cq_doorbell_visits_iff _ _ (by decide) (by decide)

/-- A queue of 256 entries, which fill one page: the host frees the last one, and the loop reads the
entry behind the page. -/
theorem cq_doorbell_wrap_reads :
    (nvmevProcIoCq (adminCreateCq 255 clearedQueue) 0 255 fun _ => none).2.reads = [255, 256] ∧
      ¬ Cq.VisitsFreed (adminCreateCq 255 clearedQueue) 255 0 fun _ => none := by
  have hreads : (nvmevProcIoCq (adminCreateCq 255 clearedQueue) 0 255 fun _ => none).2.reads =
      [255, 256] := by decide
  refine ⟨hreads, fun h => ?_⟩
  have hlt := h.reads 256 (by simp [hreads])
  revert hlt
  decide

end Nvmev
