import Mathlib.Data.List.Induction
import Mathlib.Data.List.Perm.Subperm
import NvmeVirt.Io.WorkQueue
import NvmeVirt.Lib.Linked

/-!
# The two lists of a work queue

`IoWorker.Lists wk free io`: `free` and `io` are the members of the two lists in order. Each operation
of the dispatcher is a list operation:
an enqueue takes the first free entry, unless it is the only one, and puts it somewhere among the
requests; a reclaim moves a first part of the requests to the end of the free entries. Neither
changes anything but links in the other entries (`IoWork.payload`).
-/

namespace Nvmev

open Function Linked

variable {β : Type}

/-- An entry without its links. -/
def IoWork.payload (w : IoWork β) : IoWork β := { w with next := 0, prev := 0 }

namespace IoWorker

/-- The links to the next entry. -/
def nx (wk : IoWorker β) (e : Nat) : Nat := (wk.workQueue e).next

/-- The links to the previous entry. -/
def pv (wk : IoWorker β) (e : Nat) : Nat := (wk.workQueue e).prev

/-- The test of `__reclaim_completed_reqs`. -/
def finished (wk : IoWorker β) (e : Nat) : Bool :=
  let w := wk.workQueue e
  w.isCompleted && w.isCopied && w.nsecsTarget ≤ wk.latestNsecs

/-- The members of the two lists. -/
structure Lists (wk : IoWorker β) (free io : List Nat) : Prop where
  nodup : (free ++ io).Nodup
  lt : ∀ e ∈ free ++ io, e < nrMaxParallelIo
  freeHead : wk.freeSeq = free.headD noEntry
  freeLast : free.getLast? = some wk.freeSeqEnd
  freeNext : Next wk.nx free noEntry
  ioHead : wk.ioSeq = io.headD noEntry
  ioLast : io ≠ [] → io.getLast? = some wk.ioSeqEnd
  ioNext : Next wk.nx io noEntry
  ioPrev : Prev wk.pv noEntry io

section Fields

variable (wk : IoWorker β) (e i : Nat) (w : IoWork β)

@[simp] theorem setWork_workQueue : (wk.setWork e w).workQueue = update wk.workQueue e w := rfl
@[simp] theorem setWork_freeSeq : (wk.setWork e w).freeSeq = wk.freeSeq := rfl
@[simp] theorem setWork_freeSeqEnd : (wk.setWork e w).freeSeqEnd = wk.freeSeqEnd := rfl
@[simp] theorem setWork_ioSeq : (wk.setWork e w).ioSeq = wk.ioSeq := rfl
@[simp] theorem setWork_ioSeqEnd : (wk.setWork e w).ioSeqEnd = wk.ioSeqEnd := rfl

@[simp] theorem setNext_freeSeq : (wk.setNext e i).freeSeq = wk.freeSeq := rfl
@[simp] theorem setNext_freeSeqEnd : (wk.setNext e i).freeSeqEnd = wk.freeSeqEnd := rfl
@[simp] theorem setNext_ioSeq : (wk.setNext e i).ioSeq = wk.ioSeq := rfl
@[simp] theorem setNext_ioSeqEnd : (wk.setNext e i).ioSeqEnd = wk.ioSeqEnd := rfl
@[simp] theorem setPrev_freeSeq : (wk.setPrev e i).freeSeq = wk.freeSeq := rfl
@[simp] theorem setPrev_freeSeqEnd : (wk.setPrev e i).freeSeqEnd = wk.freeSeqEnd := rfl
@[simp] theorem setPrev_ioSeq : (wk.setPrev e i).ioSeq = wk.ioSeq := rfl
@[simp] theorem setPrev_ioSeqEnd : (wk.setPrev e i).ioSeqEnd = wk.ioSeqEnd := rfl

@[simp] theorem setNext_nx : (wk.setNext e i).nx = update wk.nx e i := by
  funext a
  by_cases h : a = e
  · subst h; simp [nx, setNext]
  · simp [nx, setNext, h]

@[simp] theorem setPrev_nx : (wk.setPrev e i).nx = wk.nx := by
  funext a
  by_cases h : a = e
  · subst h; simp [nx, setPrev]
  · simp [nx, setPrev, h]

@[simp] theorem setPrev_pv : (wk.setPrev e i).pv = update wk.pv e i := by
  funext a
  by_cases h : a = e
  · subst h; simp [pv, setPrev]
  · simp [pv, setPrev, h]

@[simp] theorem setNext_pv : (wk.setNext e i).pv = wk.pv := by
  funext a
  by_cases h : a = e
  · subst h; simp [pv, setNext]
  · simp [pv, setNext, h]

@[simp] theorem setNext_payload (a : Nat) :
    ((wk.setNext e i).workQueue a).payload = (wk.workQueue a).payload := by
  by_cases h : a = e
  · subst h; simp [setNext, IoWork.payload]
  · simp [setNext, h]

@[simp] theorem setPrev_payload (a : Nat) :
    ((wk.setPrev e i).workQueue a).payload = (wk.workQueue a).payload := by
  by_cases h : a = e
  · subst h; simp [setPrev, IoWork.payload]
  · simp [setPrev, h]

theorem insertReqSorted_payload (nsecsTarget a : Nat) :
    ((insertReqSorted e wk nsecsTarget).workQueue a).payload = (wk.workQueue a).payload := by
  unfold insertReqSorted
  split
  · rfl
  dsimp only
  split
  · change (((wk.setPrev wk.ioSeq e).setNext e wk.ioSeq).workQueue a).payload = _
    simp only [setNext_payload, setPrev_payload]
  split
  · change (((wk.setPrev e _).setNext _ e).workQueue a).payload = _
    simp only [setNext_payload, setPrev_payload]
  · simp only [setNext_payload, setPrev_payload]

theorem setWork_nx_of_ne {a : Nat} (h : a ≠ e) : (wk.setWork e w).nx a = wk.nx a := by
  simp [nx, h]

theorem setWork_pv_of_ne {a : Nat} (h : a ≠ e) : (wk.setWork e w).pv a = wk.pv a := by
  simp [pv, h]

end Fields

theorem lt_noEntry {e : Nat} (h : e < nrMaxParallelIo) : e < noEntry := by
  unfold nrMaxParallelIo at h; unfold noEntry; omega

namespace Lists

variable {wk : IoWorker β} {free io : List Nat}

theorem ne_noEntry (h : Lists wk free io) {e : Nat} (he : e ∈ free ++ io) : e ≠ noEntry :=
  Nat.ne_of_lt (lt_noEntry (h.lt e he))

/-- The initial lists. -/
theorem init : Lists (ioWorkerInit : IoWorker β) (List.range nrMaxParallelIo) [] := by
  have hN : nrMaxParallelIo = (nrMaxParallelIo - 1) + 1 := rfl
  have hchain (n k : Nat) (hk : k + n = nrMaxParallelIo) :
      Next (ioWorkerInit : IoWorker β).nx (List.range' k n) noEntry := by
    induction n generalizing k with
    | zero => trivial
    | succ n ih =>
      refine ⟨?_, ih (k + 1) (by omega)⟩
      simp only [nx, ioWorkerInit]
      cases n with
      | zero => rw [if_pos (by omega)]; rfl
      | succ n => rw [if_neg (by omega)]; rfl
  refine ⟨by simpa using List.nodup_range, by simp, ?_, ?_, ?_, rfl, by simp, trivial,
    trivial⟩
  · rw [hN, List.range_succ_eq_map]; rfl
  · rw [hN, List.range_succ]; simp [ioWorkerInit]
  · rw [List.range_eq_range']
    exact hchain _ 0 (by simp)

/-- A new value for an entry that keeps its links. -/
theorem setWork (h : Lists wk free io) {e : Nat} {w : IoWork β} (hnx : w.next = wk.nx e)
    (hpv : w.prev = wk.pv e) : Lists (wk.setWork e w) free io := by
  have hn : (wk.setWork e w).nx = wk.nx := by
    funext a
    by_cases ha : a = e
    · subst ha; simpa [nx] using hnx
    · exact setWork_nx_of_ne wk e w ha
  have hp : (wk.setWork e w).pv = wk.pv := by
    funext a
    by_cases ha : a = e
    · subst ha; simpa [pv] using hpv
    · exact setWork_pv_of_ne wk e w ha
  refine ⟨h.nodup, h.lt, h.freeHead, h.freeLast, ?_, h.ioHead, h.ioLast, ?_, ?_⟩
  · rw [hn]; exact h.freeNext
  · rw [hn]; exact h.ioNext
  · rw [hp]; exact h.ioPrev

/-- The time of the worker's last visit is not part of the lists. -/
theorem setLatest (h : Lists wk free io) (now : Nat) : Lists { wk with latestNsecs := now } free io :=
  ⟨h.nodup, h.lt, h.freeHead, h.freeLast, h.freeNext, h.ioHead, h.ioLast, h.ioNext, h.ioPrev⟩

/-- A place for a new request: those behind it are later, and the one in front of it is due or not
later. -/
structure SortedAt (wk : IoWorker β) (target : Nat) (l₁ l₂ : List Nat) : Prop where
  behind : ∀ b ∈ l₂, target < (wk.workQueue b).nsecsTarget
  front : ∀ c, l₁.getLast? = some c → (wk.workQueue c).nsecsTarget ≤ max target wk.latestNsecs

/-- The cursor of `__insert_req_sorted` goes back over the requests and stops at the first such
place. -/
theorem insertionPoint_split (target : Nat) {fuel curr : Nat} (hp : Prev wk.pv noEntry io)
    (hne : ∀ a ∈ io, a ≠ noEntry) (hf : io.length ≤ fuel) (hc : curr = io.getLastD noEntry) :
    ∃ l₁ l₂, io = l₁ ++ l₂ ∧ insertionPoint wk target fuel curr = l₁.getLastD noEntry ∧
      SortedAt wk target l₁ l₂ := by
  induction io using List.reverseRecOn generalizing fuel curr with
  | nil =>
    refine ⟨[], [], rfl, ?_, nofun, nofun⟩
    subst hc
    cases fuel <;> rfl
  | append_singleton l c ih =>
    obtain ⟨fuel, rfl⟩ : ∃ n, fuel = n + 1 := ⟨fuel - 1, by simp at hf; omega⟩
    rw [List.getLastD_concat] at hc
    subst hc
    have hstop (hle : (wk.workQueue curr).nsecsTarget ≤ max target wk.latestNsecs) :
        SortedAt wk target (l ++ [curr]) [] := by
      refine ⟨nofun, fun a ha => ?_⟩
      rw [List.getLast?_concat] at ha
      cases ha
      exact hle
    unfold insertionPoint
    rw [if_neg (hne curr (by simp))]
    by_cases hdue : (wk.workQueue curr).nsecsTarget ≤ wk.latestNsecs
    · rw [if_pos hdue]
      exact ⟨l ++ [curr], [], by simp, List.getLastD_concat.symm, hstop (by omega)⟩
    by_cases hle : (wk.workQueue curr).nsecsTarget ≤ target
    · rw [if_neg hdue, if_pos hle]
      exact ⟨l ++ [curr], [], by simp, List.getLastD_concat.symm, hstop (by omega)⟩
    rw [if_neg hdue, if_neg hle]
    obtain ⟨hpl, hprev, -⟩ := prev_append.mp hp
    obtain ⟨l₁, l₂, rfl, hpoint, hsort⟩ := ih hpl (fun a ha => hne a (by simp [ha]))
      (by simp at hf ⊢; omega) hprev
    refine ⟨l₁, l₂ ++ [curr], by simp, hpoint, fun b hb => ?_, hsort.front⟩
    rcases List.mem_append.mp hb with hb | hb
    · exact hsort.behind b hb
    · rw [List.mem_singleton.mp hb]
      omega

/-- The links after `e` has been put between `l₁` and `l₂`. -/
structure LinkedIn (wk wk' : IoWorker β) (e : Nat) (l₁ l₂ : List Nat) : Prop where
  freeSeq : wk'.freeSeq = wk.freeSeq
  freeSeqEnd : wk'.freeSeqEnd = wk.freeSeqEnd
  ioSeq : wk'.ioSeq = (l₁ ++ e :: l₂).headD noEntry
  ioSeqEnd : (l₁ ++ e :: l₂).getLast? = some wk'.ioSeqEnd
  next : wk'.nx e = l₂.headD noEntry
  prev : wk'.pv e = l₁.getLastD noEntry
  nextLast : ∀ c, l₁.getLast? = some c → wk'.nx c = e
  prevHead : ∀ d, l₂.head? = some d → wk'.pv d = e
  nextOther : ∀ a ≠ e, l₁.getLast? ≠ some a → wk'.nx a = wk.nx a
  prevOther : ∀ a ≠ e, l₂.head? ≠ some a → wk'.pv a = wk.pv a

theorem linkedIn {wk' : IoWorker β} {e : Nat} {l₁ l₂ : List Nat} (h : Lists wk free (l₁ ++ l₂))
    (he : e ∉ free ++ (l₁ ++ l₂)) (hlt : e < nrMaxParallelIo) (hl : LinkedIn wk wk' e l₁ l₂) :
    Lists wk' free (l₁ ++ e :: l₂) := by
  have hp : (free ++ (l₁ ++ e :: l₂)).Perm (e :: (free ++ (l₁ ++ l₂))) := by
    rw [← List.append_assoc, ← List.append_assoc]
    exact List.perm_middle
  have hnd := List.nodup_append.mp h.nodup
  have hio : e ∉ l₁ ++ l₂ := fun hm => he (List.mem_append_right _ hm)
  refine ⟨hp.nodup_iff.mpr (List.nodup_cons.mpr ⟨he, h.nodup⟩), fun a ha => ?_,
    hl.freeSeq.trans h.freeHead, h.freeLast.trans (congrArg some hl.freeSeqEnd.symm), ?_, hl.ioSeq,
    fun _ => hl.ioSeqEnd, ?_, ?_⟩
  · obtain rfl | ha := List.mem_cons.mp (hp.mem_iff.mp ha)
    · exact hlt
    · exact h.lt a ha
  · refine h.freeNext.congr fun a ha => hl.nextOther a ?_ fun hc => ?_
    · rintro rfl
      exact he (List.mem_append_left _ ha)
    · exact hnd.2.2 a ha a (List.mem_append_left _ (List.mem_of_getLast? hc)) rfl
  · exact h.ioNext.insert hnd.2.1 hio hl.nextOther hl.nextLast hl.next
  · exact h.ioPrev.insert hnd.2.1 hio hl.prevOther hl.prevHead hl.prev

/-- At the head, `e` has no previous entry. -/
theorem linkedIn_head (h : Lists wk free io) {e : Nat} (he : e ∉ io) (hpv : wk.pv e = noEntry)
    (hne : io ≠ []) :
    LinkedIn wk { (wk.setPrev wk.ioSeq e).setNext e wk.ioSeq with ioSeq := e } e [] io := by
  obtain ⟨d, l, rfl⟩ : ∃ d l, io = d :: l := List.exists_cons_of_ne_nil hne
  have hd : wk.ioSeq = d := h.ioHead
  have hde : e ≠ d := fun hed => he (by simp [hed])
  have hnx : ({ (wk.setPrev wk.ioSeq e).setNext e wk.ioSeq with ioSeq := e } : IoWorker β).nx =
      update wk.nx e d := by
    change ((wk.setPrev wk.ioSeq e).setNext e wk.ioSeq).nx = _
    rw [setNext_nx, setPrev_nx, hd]
  have hpv' : ({ (wk.setPrev wk.ioSeq e).setNext e wk.ioSeq with ioSeq := e } : IoWorker β).pv =
      update wk.pv d e := by
    change ((wk.setPrev wk.ioSeq e).setNext e wk.ioSeq).pv = _
    rw [setNext_pv, setPrev_pv, hd]
  refine ⟨rfl, rfl, rfl, ?_, ?_, ?_, nofun, ?_, fun a ha _ => ?_, fun a _ ha => ?_⟩
  · exact h.ioLast hne
  · rw [hnx, update_self]; rfl
  · rw [hpv', update_of_ne hde, hpv]; rfl
  · rintro _ ⟨⟩
    rw [hpv', update_self]
  · rw [hnx, update_of_ne ha]
  · rw [hpv', update_of_ne fun had => ha (congrArg some had.symm)]

/-- At the tail, after `c`, it has no next entry. -/
theorem linkedIn_tail {e c : Nat} {l : List Nat} (h : Lists wk free (l ++ [c])) (he : e ∉ l ++ [c])
    (hnx : wk.nx e = noEntry) :
    LinkedIn wk { (wk.setPrev e c).setNext c e with ioSeqEnd := e } e (l ++ [c]) [] := by
  have hce : e ≠ c := fun hec => he (by simp [hec])
  have hn : ({ (wk.setPrev e c).setNext c e with ioSeqEnd := e } : IoWorker β).nx =
      update wk.nx c e := by
    change ((wk.setPrev e c).setNext c e).nx = _
    rw [setNext_nx, setPrev_nx]
  have hp : ({ (wk.setPrev e c).setNext c e with ioSeqEnd := e } : IoWorker β).pv =
      update wk.pv e c := by
    change ((wk.setPrev e c).setNext c e).pv = _
    rw [setNext_pv, setPrev_pv]
  refine ⟨rfl, rfl, ?_, List.getLast?_concat, ?_, ?_, fun a ha => ?_, nofun, fun a _ ha => ?_,
    fun a ha _ => ?_⟩
  · refine h.ioHead.trans ?_
    cases l <;> rfl
  · rw [hn, update_of_ne hce, hnx]; rfl
  · rw [hp, update_self, List.getLastD_concat]
  · rw [List.getLast?_concat] at ha
    cases ha
    rw [hn, update_self]
  · rw [List.getLast?_concat, ne_eq, Option.some_inj] at ha
    rw [hn, update_of_ne (Ne.symm ha)]
  · rw [hp, update_of_ne ha]

/-- Between `c` and `d`. -/
theorem linkedIn_between {e c d : Nat} {l₁ l₂ : List Nat} (h : Lists wk free (l₁ ++ [c] ++ d :: l₂))
    (he : e ∉ l₁ ++ [c] ++ d :: l₂) :
    LinkedIn wk ((((wk.setPrev e c).setNext e d).setPrev d e).setNext c e) e (l₁ ++ [c])
      (d :: l₂) := by
  simp only [List.mem_append, List.mem_cons, not_or] at he
  refine ⟨rfl, rfl, ?_, ?_, ?_, ?_, fun a ha => ?_, ?_, fun a hae ha => ?_, fun a hae ha => ?_⟩
  · refine h.ioHead.trans ?_
    cases l₁ <;> rfl
  · refine Eq.trans ?_ (h.ioLast (by simp))
    simp
  · simp only [setNext_nx, setPrev_nx]
    rw [update_of_ne (by tauto), update_self]
    rfl
  · simp only [setNext_pv, setPrev_pv]
    rw [update_of_ne (by tauto), update_self, List.getLastD_concat]
  · rw [List.getLast?_concat] at ha
    cases ha
    rw [setNext_nx, update_self]
  · rintro _ ⟨⟩
    simp only [setNext_pv, setPrev_pv]
    exact update_self ..
  · rw [List.getLast?_concat, ne_eq, Option.some_inj] at ha
    simp only [setNext_nx, setPrev_nx]
    rw [update_of_ne (Ne.symm ha), update_of_ne hae]
  · simp only [setNext_pv, setPrev_pv]
    rw [update_of_ne fun had => ha (congrArg some had.symm), update_of_ne hae]

theorem length_le (h : Lists wk free io) : free.length + io.length ≤ nrMaxParallelIo := by
  have hsub : free ++ io ⊆ List.range nrMaxParallelIo := fun a ha => List.mem_range.mpr (h.lt a ha)
  simpa using (h.nodup.subperm hsub).length_le

/-- `__insert_req_sorted` links a new entry in at such a place among the requests. -/
theorem insertReqSorted (h : Lists wk free io) {e : Nat} (he : e ∉ free ++ io)
    (hlt : e < nrMaxParallelIo) (hnx : wk.nx e = noEntry) (hpv : wk.pv e = noEntry) (target : Nat) :
    ∃ l₁ l₂, io = l₁ ++ l₂ ∧ Lists (insertReqSorted e wk target) free (l₁ ++ e :: l₂) ∧
      SortedAt wk target l₁ l₂ := by
  have heio : e ∉ io := fun hm => he (List.mem_append_right _ hm)
  suffices hl : ∃ l₁ l₂, io = l₁ ++ l₂ ∧ LinkedIn wk (Nvmev.insertReqSorted e wk target) e l₁ l₂ ∧
      SortedAt wk target l₁ l₂ by
    obtain ⟨l₁, l₂, rfl, hl, hsort⟩ := hl
    exact ⟨l₁, l₂, rfl, h.linkedIn he hlt hl, hsort⟩
  unfold Nvmev.insertReqSorted
  split
  · -- the list of requests is empty
    rename_i hempty
    have hio : io = [] := by
      cases io with
      | nil => rfl
      | cons a l => exact absurd (h.ioHead.symm.trans hempty) (h.ne_noEntry (by simp))
    subst hio
    exact ⟨[], [], rfl,
      ⟨rfl, rfl, rfl, rfl, hnx, hpv, nofun, nofun, fun _ _ _ => rfl, fun _ _ _ => rfl⟩, nofun, nofun⟩
  rename_i hne
  have hio : io ≠ [] := by
    rintro rfl; exact hne h.ioHead
  have hend : wk.ioSeqEnd = io.getLastD noEntry := by
    rw [List.getLastD_eq_getLast?, h.ioLast hio]
    rfl
  have hlen := h.length_le
  obtain ⟨l₁, l₂, rfl, hpoint, hsort⟩ := insertionPoint_split target h.ioPrev
    (fun a ha => h.ne_noEntry (by simp [ha])) (show io.length ≤ nrMaxParallelIo by omega) hend
  refine ⟨l₁, l₂, rfl, ?_, hsort⟩
  dsimp only
  rw [hpoint]
  obtain rfl | ⟨l, c, rfl⟩ := List.eq_nil_or_concat l₁
  · rw [List.getLastD_nil, if_pos rfl]
    exact h.linkedIn_head heio hpv hio
  rw [List.concat_eq_append] at *
  have hnext : (wk.workQueue c).next = l₂.headD noEntry :=
    (next_append.mp (next_append.mp h.ioNext).1).2.1
  rw [List.getLastD_concat, if_neg (h.ne_noEntry (by simp)), hnext]
  cases l₂ with
  | nil =>
    rw [List.headD_nil, if_pos rfl]
    rw [List.append_nil] at h heio
    exact h.linkedIn_tail heio hnx
  | cons d l₂ =>
    rw [List.headD_cons, if_neg (h.ne_noEntry (by simp))]
    exact h.linkedIn_between heio

/-! ## Enqueue -/

/-- With one free entry left, an enqueue returns without a trace. -/
theorem enqueueWork_none {e : Nat} (h : Lists wk [e] io) (work : IoWork β → IoWork β) :
    enqueueWork wk work = none := by
  have hseq : wk.freeSeq = e := h.freeHead
  have hnx : (wk.workQueue e).next = noEntry := h.freeNext.1
  have hle : nrMaxParallelIo ≤ noEntry := by decide
  simp [enqueueWork, allocateWorkQueueEntry, hseq, hnx, hle]

/-- With more, it takes the first one. -/
theorem enqueueWork_some {e : Nat} (h : Lists wk (e :: free) io) (hfree : free ≠ [])
    {work : IoWork β → IoWork β} (hnx : ∀ w, (work w).next = noEntry)
    (hpv : ∀ w, (work w).prev = noEntry) :
    ∃ wk' l₁ l₂, enqueueWork wk work = some (e, wk') ∧ io = l₁ ++ l₂ ∧
      Lists wk' free (l₁ ++ e :: l₂) ∧
      (wk'.workQueue e).payload = (work (wk.workQueue e)).payload ∧
      (∀ a ≠ e, (wk'.workQueue a).payload = (wk.workQueue a).payload) ∧
      SortedAt wk (work (wk.workQueue e)).nsecsTarget l₁ l₂ := by
  obtain ⟨f, free, rfl⟩ : ∃ f l, free = f :: l := List.exists_cons_of_ne_nil hfree
  have hseq : wk.freeSeq = e := h.freeHead
  have hnext : (wk.workQueue e).next = f := h.freeNext.1
  have hflt : f < nrMaxParallelIo := h.lt f (by simp)
  have hnd : e ∉ (f :: free) ++ io := (List.nodup_cons.mp h.nodup).1
  let wk₁ : IoWorker β := { wk with freeSeq := f }
  let wk₂ := wk₁.setWork e (work (wk.workQueue e))
  have hmem {a : Nat} (ha : a ∈ (f :: free) ++ io) : a ≠ e := by
    rintro rfl; exact hnd ha
  have h₂ : Lists wk₂ (f :: free) io := by
    refine ⟨(List.nodup_cons.mp h.nodup).2, fun a ha => h.lt a (by simp_all), rfl, ?_, ?_, h.ioHead,
      h.ioLast, ?_, ?_⟩
    · have := h.freeLast
      rwa [List.getLast?_cons_cons] at this
    · exact h.freeNext.2.congr fun a ha => setWork_nx_of_ne _ _ _ (hmem (List.mem_append_left _ ha))
    · exact h.ioNext.congr fun a ha => setWork_nx_of_ne _ _ _ (hmem (List.mem_append_right _ ha))
    · exact h.ioPrev.congr fun a ha => setWork_pv_of_ne _ _ _ (hmem (List.mem_append_right _ ha))
  obtain ⟨l₁, l₂, rfl, hl, hsort⟩ := h₂.insertReqSorted hnd (h.lt e (by simp))
    (by simpa [wk₂, nx] using hnx _) (by simpa [wk₂, pv] using hpv _)
    (work (wk.workQueue e)).nsecsTarget
  have hold {a : Nat} (ha : a ∈ l₁ ++ l₂) : wk₂.workQueue a = wk.workQueue a :=
    update_of_ne (hmem (List.mem_append_right _ ha)) _ _
  refine ⟨_, l₁, l₂, ?_, rfl, hl, ?_, fun a ha => ?_, fun b hb => ?_, fun c hc => ?_⟩
  · have : ¬ nrMaxParallelIo ≤ f := by omega
    simp [enqueueWork, allocateWorkQueueEntry, hseq, hnext, this, wk₂, wk₁]
  · rw [insertReqSorted_payload]; simp [wk₂]
  · rw [insertReqSorted_payload]; simp [wk₂, wk₁, ha]
  · rw [← hold (List.mem_append_right _ hb)]
    exact hsort.behind b hb
  · rw [← hold (List.mem_append_left _ (List.mem_of_getLast? hc))]
    exact hsort.front c hc

/-! ## Reclaim -/

/-- The loop of `__reclaim_completed_reqs` stops at the first request that is not finished. -/
theorem lastReclaimed_eq {l : List Nat} {fuel last : Nat} (hn : Next wk.nx l noEntry)
    (hne : ∀ a ∈ l, a ≠ noEntry) (hf : l.length ≤ fuel) :
    lastReclaimed wk fuel (l.headD noEntry) last = (l.takeWhile wk.finished).getLastD last := by
  induction l generalizing fuel last with
  | nil => cases fuel <;> simp [lastReclaimed]
  | cons a l ih =>
    obtain ⟨fuel, rfl⟩ : ∃ n, fuel = n + 1 := ⟨fuel - 1, by simp at hf; omega⟩
    have hnx : (wk.workQueue a).next = l.headD noEntry := hn.1
    have ha : a ≠ noEntry := hne a (by simp)
    simp only [lastReclaimed, List.headD_cons, ha, ↓reduceIte]
    change (if wk.finished a = true then _ else _) = _
    by_cases hfin : wk.finished a = true
    · rw [if_pos hfin, hnx, ih hn.2 (fun b hb => hne b (by simp [hb])) (by simp at hf; omega),
        List.takeWhile_cons_of_pos hfin, List.getLastD_cons]
    · rw [if_neg hfin, List.takeWhile_cons_of_neg hfin]
      rfl

section Fields

variable (wk : IoWorker β) (first last : Nat)

theorem reclaimUpTo_nx : (reclaimUpTo wk first last).nx =
    update (update wk.nx last noEntry) wk.freeSeqEnd first := by
  unfold reclaimUpTo
  simp only []
  split
  · change (IoWorker.setNext _ _ _).nx = _
    simp only [setNext_nx, setPrev_nx, setPrev_freeSeqEnd, setNext_freeSeqEnd]
    rfl
  · change (IoWorker.setNext _ _ _).nx = _
    simp only [setNext_nx, setPrev_nx, setPrev_freeSeqEnd, setNext_freeSeqEnd]
    rfl

theorem reclaimUpTo_pv : (reclaimUpTo wk first last).pv =
    update (if wk.nx last ≠ noEntry then update wk.pv (wk.nx last) noEntry else wk.pv) first
      wk.freeSeqEnd := by
  unfold reclaimUpTo
  simp only []
  split <;> rename_i hn <;> change (IoWorker.setNext _ _ _).pv = _ <;>
    simp only [setNext_pv, setPrev_pv, setNext_freeSeqEnd, setPrev_freeSeqEnd]
  · rw [if_pos (show wk.nx last ≠ noEntry from hn)]; rfl
  · rw [if_neg (show ¬ wk.nx last ≠ noEntry from hn)]; rfl

theorem reclaimUpTo_payload (a : Nat) :
    ((reclaimUpTo wk first last).workQueue a).payload = (wk.workQueue a).payload := by
  unfold reclaimUpTo
  simp only []
  split <;> simp only [setNext_payload, setPrev_payload]

theorem reclaimCompletedReqs_payload (a : Nat) :
    ((Nvmev.reclaimCompletedReqs wk).workQueue a).payload = (wk.workQueue a).payload := by
  unfold Nvmev.reclaimCompletedReqs
  dsimp only
  split
  · rfl
  · exact reclaimUpTo_payload wk _ _ a

theorem reclaimUpTo_freeSeq : (reclaimUpTo wk first last).freeSeq = wk.freeSeq := by
  unfold reclaimUpTo; simp only []; split <;> rfl

theorem reclaimUpTo_ioSeq : (reclaimUpTo wk first last).ioSeq = wk.nx last := by
  unfold reclaimUpTo; simp only []; split <;> rfl

theorem reclaimUpTo_ioSeqEnd : (reclaimUpTo wk first last).ioSeqEnd = wk.ioSeqEnd := by
  unfold reclaimUpTo; simp only []; split <;> rfl

end Fields

/-- The first requests become the last free entries. -/
theorem reclaimUpTo {l₁ l₂ : List Nat} {last : Nat} (h : Lists wk free (l₁ ++ [last] ++ l₂)) :
    Lists (reclaimUpTo wk wk.ioSeq last) (free ++ (l₁ ++ [last])) l₂ := by
  have hnd := List.nodup_append.mp h.nodup
  have hnd₂ := List.nodup_append.mp hnd.2.1
  have hin := next_append.mp h.ioNext
  have hip := prev_append.mp h.ioPrev
  have hnx : wk.nx last = l₂.headD noEntry := (next_append.mp hin.1).2.1
  obtain ⟨first, l₀, hfirst⟩ : ∃ a l, l₁ ++ [last] = a :: l :=
    List.exists_cons_of_ne_nil (by simp)
  have hseq : wk.ioSeq = first := by rw [h.ioHead, hfirst]; rfl
  obtain ⟨fr, hfr⟩ : ∃ fr, free = fr ++ [wk.freeSeqEnd] :=
    List.getLast?_eq_some_iff.mp h.freeLast
  have hlfree : last ∉ free := fun hm => hnd.2.2 last hm last (by simp) rfl
  have hend : wk.freeSeqEnd ∈ free := by rw [hfr]; simp
  have hendio (a : Nat) (ha : a ∈ l₁ ++ [last] ++ l₂) : a ≠ wk.freeSeqEnd :=
    fun he => hnd.2.2 _ hend a ha he.symm
  have hlast₂ (a : Nat) (ha : a ∈ l₂) : a ≠ last := fun he => hnd₂.2.2 last (by simp) a ha he.symm
  have hfirst₂ (a : Nat) (ha : a ∈ l₂) : a ≠ first :=
    fun he => hnd₂.2.2 first (by simp [hfirst]) a ha he.symm
  refine ⟨?_, ?_, ?_, ?_, ?_, ?_, ?_, ?_, ?_⟩
  · rw [List.append_assoc]; exact h.nodup
  · rw [List.append_assoc]; exact h.lt
  · rw [reclaimUpTo_freeSeq, h.freeHead, hfr]
    cases fr <;> rfl
  · rw [← List.append_assoc, List.getLast?_concat]; rfl
  · rw [reclaimUpTo_nx, hseq, next_append]
    constructor
    · have hfn := h.freeNext
      rw [hfr] at hfn ⊢
      refine hfn.retarget (fun a ha => ?_) ?_
      · have hane : a ≠ wk.freeSeqEnd := by
          rw [hfr] at hnd
          rintro rfl
          exact (List.nodup_append.mp hnd.1).2.2 _ ha _ (by simp) rfl
        have hal : a ≠ last := by
          rintro rfl; exact hlfree (by rw [hfr]; simp [ha])
        rw [update_of_ne hane, update_of_ne hal]
      · rw [update_self, hfirst]; rfl
    · refine hin.1.retarget (fun a ha => ?_) ?_
      · have hal : a ≠ last := by
          rintro rfl
          exact (List.nodup_append.mp hnd₂.1).2.2 _ ha _ (by simp) rfl
        rw [update_of_ne (hendio a (by simp [ha])), update_of_ne hal]
      · rw [update_of_ne (hendio last (by simp)), update_self]
  · rw [reclaimUpTo_ioSeq, hnx]
  · intro hne
    have := h.ioLast (by simp)
    rw [List.getLast?_append_of_ne_nil _ hne] at this
    rw [this, reclaimUpTo_ioSeqEnd]
  · rw [reclaimUpTo_nx]
    refine hin.2.congr fun a ha => ?_
    rw [update_of_ne (hendio a (by simp [ha])), update_of_ne (hlast₂ a ha)]
  · rw [reclaimUpTo_pv, hseq, hnx]
    cases l₂ with
    | nil => trivial
    | cons d l₃ =>
      have hd : d ≠ noEntry := h.ne_noEntry (by simp)
      rw [List.headD_cons, if_pos hd]
      refine ⟨?_, hip.2.2.congr fun a ha => ?_⟩
      · rw [update_of_ne (hfirst₂ d (by simp)), update_self]
      · have had : a ≠ d := by
          rintro rfl
          exact (List.nodup_cons.mp hnd₂.2.1).1 ha
        rw [update_of_ne (hfirst₂ a (by simp [ha])), update_of_ne had]

/-- A reclaim moves the finished requests at the head to the end of the free entries. -/
theorem reclaimCompletedReqs (h : Lists wk free io) :
    Lists (reclaimCompletedReqs wk) (free ++ io.takeWhile wk.finished)
      (io.dropWhile wk.finished) := by
  have hlast : lastReclaimed wk nrMaxParallelIo wk.ioSeq noEntry =
      (io.takeWhile wk.finished).getLastD noEntry := by
    rw [h.ioHead]
    refine lastReclaimed_eq h.ioNext (fun a ha => h.ne_noEntry (by simp [ha])) ?_
    have := h.length_le
    omega
  have hsplit := (List.takeWhile_append_dropWhile (p := wk.finished) (l := io)).symm
  generalize io.takeWhile wk.finished = l₁ at hlast hsplit ⊢
  generalize io.dropWhile wk.finished = l₂ at hsplit ⊢
  subst hsplit
  unfold Nvmev.reclaimCompletedReqs
  simp only [hlast]
  rcases List.eq_nil_or_concat l₁ with rfl | ⟨l, last, hl⟩
  · simpa using h
  rw [List.concat_eq_append] at hl
  subst hl
  rw [List.getLastD_concat, if_neg (h.ne_noEntry (by simp))]
  exact h.reclaimUpTo

end Lists

end IoWorker

end Nvmev
