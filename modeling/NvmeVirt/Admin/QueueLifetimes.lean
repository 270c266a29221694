import NvmeVirt.Admin.Commands
import NvmeVirt.Io.SubmissionSlots

/-!
# Queues and the work items that name them

A work item names its queues by number, and a worker looks them up when it copies (`sqes[sqid]` in
`__do_perform_io`) and when it completes (`cqes[cqid]` in `__fill_cq_result`), without a check. The admin
handlers free a queue at once. `Lifetimes.Sys` is the device with its workers, in any interleaving
(`Lifetimes.Action`) of the admin commands, of the dispatcher and of the workers.

`sqStores` and `cqStores` count the stores to each pointer of `sqes` and `cqes`: a number names the queue
that it named before if there was no store in between.

`outstanding_items_live_iff`: the outstanding items have their queues in every state exactly if no queue
is created or deleted under one of them and none is dispatched without a completion queue. Nothing in the
code drains or counts them.
-/

namespace Nvmev

open Function Runs Outcome

/-- The host writes an entry of the admin submission queue. -/
def AdminDev.submit (d : AdminDev) (eid : Nat) (cmd : AdminCommand) : AdminDev :=
  { d with adminQ := d.adminQ.map fun queue =>
      { queue with nvmeSq := queue.nvmeSq.map fun sq => update sq eid cmd } }

namespace Lifetimes

variable {β : Type}

/-- The device, its workers, and a record of the run: the stores to `sqes` and `cqes`, and for each item
of a worker the numbers of stores to its two queues at its dispatch. -/
structure Sys (β : Type) where
  dev : AdminDev
  workers : Nat → Io.Sys β := fun _ => Io.Sys.init
  sqStores : Nat → Nat := fun _ => 0
  cqStores : Nat → Nat := fun _ => 0
  origin : Nat → Nat → Option (Nat × Nat) := fun _ _ => none

/-- What can happen next. -/
inductive Action (β : Type) where
  /-- The host writes an entry of the admin submission queue. -/
  | submit (eid : Nat) (cmd : AdminCommand)
  /-- `__nvmev_proc_admin_req`. `ring` is the memory of a new completion queue. -/
  | admin (ring : Nat → Nat → NvmeCompletion) (eid : Nat)
  /-- `__enqueue_io_req` for a command of queue `sqid`, on worker `i`. -/
  | dispatch (i sqid sqEntry commandId nsecsStart nsecsEnqueue : Nat) (ret : Result)
  /-- Any other step on worker `i`. -/
  | other (i : Nat) (action : Io.Action β)

/-- The command stores a pointer in `sqes[qid]`. -/
def StoresSq (cmd : AdminCommand) (qid : Nat) : Prop :=
  (cmd.opcode = .createSq ∨ cmd.opcode = .deleteSq) ∧ cmd.qid = qid

/-- The command stores a pointer in `cqes[qid]`. -/
def StoresCq (cmd : AdminCommand) (qid : Nat) : Prop :=
  (cmd.opcode = .createCq ∨ cmd.opcode = .deleteCq) ∧ cmd.qid = qid

instance (cmd : AdminCommand) (qid : Nat) : Decidable (StoresSq cmd qid) := inferInstanceAs (Decidable (_ ∧ _))

instance (cmd : AdminCommand) (qid : Nat) : Decidable (StoresCq cmd qid) := inferInstanceAs (Decidable (_ ∧ _))

/-- `__nvmev_proc_admin_req`. The run stops at an access that the source does not define. -/
def Sys.admin (s : Sys β) (ring : Nat → Nat → NvmeCompletion) (eid : Nat) : Sys β :=
  match s.dev.sqEntry eid, nvmevProcAdminReq ring s.dev eid with
  | .ok cmd, .ok dev => { s with
      dev
      sqStores := fun qid => if StoresSq cmd qid then s.sqStores qid + 1 else s.sqStores qid
      cqStores := fun qid => if StoresCq cmd qid then s.cqStores qid + 1 else s.cqStores qid }
  | _, _ => s

/-- `__enqueue_io_req`, for a queue that is not null. No item comes of it if the list is full. -/
def Sys.dispatch (s : Sys β) (i sqid sqEntry commandId nsecsStart nsecsEnqueue : Nat) (ret : Result) :
    Sys β :=
  match s.dev.sqes sqid with
  | none => s
  | some sq =>
    let worker :=
      Io.step (s.workers i) (.enqueue sqid sq.cqid sqEntry commandId nsecsStart nsecsEnqueue ret)
    let s' := { s with workers := update s.workers i worker }
    if worker.nrItems = (s.workers i).nrItems then s'
    else
      { s' with
        origin := update s.origin i
          (update (s.origin i) (s.workers i).nrItems (some (s.sqStores sqid, s.cqStores sq.cqid))) }

/-- One step. -/
def step (s : Sys β) : Action β → Sys β
  | .submit eid cmd => { s with dev := s.dev.submit eid cmd }
  | .admin ring eid => s.admin ring eid
  | .dispatch i sqid sqEntry commandId nsecsStart nsecsEnqueue ret =>
    s.dispatch i sqid sqEntry commandId nsecsStart nsecsEnqueue ret
  | .other _ (.enqueue ..) => s
  | .other i action => { s with workers := update s.workers i (Io.step (s.workers i) action) }

/-- The item in entry `e` is one of the host, and it is not completed. -/
structure Outstanding (s : Io.Sys β) (e : Nat) : Prop where
  enqueued : ∃ work, .enqueued (s.owner e) e work ∈ s.log
  isInternal : (s.worker.workQueue e).isInternal = false
  isCompleted : (s.worker.workQueue e).isCompleted = false

/-- The queues that the item in entry `e` of worker `i` names are not null, and they are the ones that it
named at its dispatch. -/
structure Live (s : Sys β) (i e : Nat) : Prop where
  sq : (s.dev.sqes ((s.workers i).worker.workQueue e).sqid).isSome
  cq : (s.dev.cqes ((s.workers i).worker.workQueue e).cqid).isSome
  same : s.origin i ((s.workers i).owner e) = some
    (s.sqStores ((s.workers i).worker.workQueue e).sqid, s.cqStores ((s.workers i).worker.workQueue e).cqid)

/-- The outstanding items have their queues. -/
def AllLive (s : Sys β) : Prop := ∀ i e, Outstanding (s.workers i) e → Live s i e

/-- The effects at an item of the host: the copy and the completion. -/
def OfRequest : Effect β → Prop
  | .copy _ _ | .post _ => True
  | .release _ _ => False

/-- A worker that copies for an item or completes it finds its queues. -/
def Safe (s : Sys β) : Action β → Prop
  | .other i (.visit currNsecs kv) => (s.workers i).curr ≠ noEntry →
    ∀ effect ∈ (visitEntry (s.workers i).worker (s.workers i).curr currNsecs kv).2.2,
      OfRequest effect → Live s i (s.workers i).curr
  | _ => True

/-- A command that creates or deletes a queue comes when no outstanding item names it, and an item is
dispatched when its completion queue is not null. -/
def Drained (s : Sys β) : Action β → Prop
  | .admin ring eid => ∀ cmd dev, s.dev.sqEntry eid = .ok cmd → nvmevProcAdminReq ring s.dev eid = .ok dev →
    ∀ i e, Outstanding (s.workers i) e →
      ¬ StoresSq cmd ((s.workers i).worker.workQueue e).sqid ∧
      ¬ StoresCq cmd ((s.workers i).worker.workQueue e).cqid
  | .dispatch i sqid _ _ _ _ _ => ∀ sq ∈ s.dev.sqes sqid,
    allocateWorkQueueEntry (s.workers i).worker ≠ none → (s.dev.cqes sq.cqid).isSome
  | _ => True

/-! ## What the admin commands store -/

section Admin

variable {d d' : AdminDev} {cmd : AdminCommand} {eid : Nat}

/-- `d'` has the queues of `d`, apart from those that `cmd` stores. -/
structure Frame (cmd : AdminCommand) (d d' : AdminDev) : Prop where
  sqes : ∀ qid, ¬ StoresSq cmd qid → d'.sqes qid = d.sqes qid
  cqes : ∀ qid, ¬ StoresCq cmd qid → d'.cqes qid = d.cqes qid

theorem Frame.refl (cmd : AdminCommand) (d : AdminDev) : Frame cmd d d :=
  ⟨fun _ _ => rfl, fun _ _ => rfl⟩

/-- A completion leaves the I/O queues alone. -/
theorem Frame.post {d₁ : AdminDev} (h : Frame cmd d d₁) (eid ret result0 result1 : Nat) :
    Partial (d₁.makeCqEntryResults eid ret result0 result1) (Frame cmd d) := by
  unfold AdminDev.makeCqEntryResults
  refine Partial.bind (Q := fun _ => True) (fun _ _ => trivial) fun cmd' _ => ?_
  split
  · exact .error
  split
  · exact .error
  · exact .ret ⟨h.sqes, h.cqes⟩

/-- A completion after a page of data. -/
theorem Frame.page (cmd : AdminCommand) (d : AdminDev) (cmd' : AdminCommand) (page : DataPage) (site : Site)
    (eid : Nat) :
    Partial (d.writePage cmd' page site >>= fun d => d.makeCqEntry eid Sc.success) (Frame cmd d) := by
  have hwrite : Partial (d.writePage cmd' page site) (Frame cmd d) :=
    Partial.ensure.bind fun _ _ => .ret ⟨fun _ _ => rfl, fun _ _ => rfl⟩
  exact hwrite.bind fun d₁ h => h.post _ _ _ _

theorem queueId_eq (cmd : AdminCommand) (site : Site) : Partial (queueId cmd site) (· = cmd.qid) := by
  unfold queueId
  exact Partial.ensure.bind fun _ _ => .ret rfl

theorem identify_frame (hcmd : d.sqEntry eid = .ok cmd) :
    Partial (nvmevAdminIdentify d eid) (Frame cmd d) := by
  have hpost (ret : Nat) : Partial (d.makeCqEntry eid ret) (Frame cmd d) := (Frame.refl cmd d).post _ _ _ _
  -- the commands that read a namespace
  have hns {site : Site} {reply : NvmevNs → Except Bug AdminDev}
      (h : ∀ ns, Partial (reply ns) (Frame cmd d)) : Partial (d.getNs cmd site >>= reply) (Frame cmd d) :=
    Partial.bind (Q := fun _ => True) (fun _ _ => trivial) fun ns _ => h ns
  unfold nvmevAdminIdentify
  rw [hcmd, ok_bind]
  split
  case h_1 =>
    unfold nvmevAdminIdentifyNamespace
    rw [hcmd, ok_bind]
    exact hns fun ns => Frame.page cmd d cmd _ _ eid
  case h_2 =>
    unfold nvmevAdminIdentifyCtrl
    rw [hcmd, ok_bind]
    exact Frame.page cmd d cmd _ _ eid
  case h_3 =>
    unfold nvmevAdminIdentifyNamespaces
    rw [hcmd, ok_bind]
    exact Frame.page cmd d cmd _ _ eid
  case h_4 =>
    unfold nvmevAdminIdentifyNamespaceDesc
    rw [hcmd, ok_bind]
    exact hns fun ns => Frame.page cmd d cmd _ _ eid
  case h_5 =>
    unfold nvmevAdminIdentifyZnsNamespace
    rw [hcmd, ok_bind]
    refine hns fun ns => ?_
    split
    · exact Partial.ensure.bind fun _ _ => Frame.page cmd d cmd _ _ eid
    · exact hpost _
  case h_6 =>
    unfold nvmevAdminIdentifyZnsCtrl
    rw [hcmd, ok_bind]
    exact Frame.page cmd d cmd _ _ eid
  case h_7 => exact hpost _

/-- Only the four commands that name a queue store a pointer, and each only the one of its queue. -/
theorem procAdminReq_frame (ring : Nat → Nat → NvmeCompletion) (hcmd : d.sqEntry eid = .ok cmd) :
    Partial (nvmevProcAdminReq ring d eid) (Frame cmd d) := by
  have hpost (ret result0 result1 : Nat) :
      Partial (d.makeCqEntryResults eid ret result0 result1) (Frame cmd d) :=
    (Frame.refl cmd d).post _ _ _ _
  unfold nvmevProcAdminReq
  rw [hcmd, ok_bind]
  cases hop : cmd.opcode <;> dsimp only
  case createSq =>
    unfold nvmevAdminCreateSq
    rw [hcmd, ok_bind]
    refine (queueId_eq cmd _).bind fun qid hqid => Frame.post ?_ _ _ _ _
    refine ⟨fun q hq => ?_, fun _ _ => rfl⟩
    exact update_of_ne (fun he => hq ⟨.inl hop, by rw [he, hqid]⟩) _ _
  case deleteSq =>
    unfold nvmevAdminDeleteSq
    rw [hcmd, ok_bind]
    refine (queueId_eq cmd _).bind fun qid hqid => Frame.post ?_ _ _ _ _
    refine ⟨fun q hq => ?_, fun _ _ => rfl⟩
    exact update_of_ne (fun he => hq ⟨.inr hop, by rw [he, hqid]⟩) _ _
  case createCq =>
    unfold nvmevAdminCreateCq
    rw [hcmd, ok_bind]
    refine (queueId_eq cmd _).bind fun qid hqid => Frame.post ?_ _ _ _ _
    refine ⟨fun _ _ => rfl, fun q hq => ?_⟩
    exact update_of_ne (fun he => hq ⟨.inl hop, by rw [he, hqid]⟩) _ _
  case deleteCq =>
    unfold nvmevAdminDeleteCq
    rw [hcmd, ok_bind]
    refine (queueId_eq cmd _).bind fun qid hqid => Frame.post ?_ _ _ _ _
    refine ⟨fun _ _ => rfl, fun q hq => ?_⟩
    exact update_of_ne (fun he => hq ⟨.inr hop, by rw [he, hqid]⟩) _ _
  case getLogPage =>
    unfold nvmevAdminGetLogPage
    rw [hcmd, ok_bind]
    exact Partial.ensure.bind fun _ _ => Frame.page cmd d cmd _ _ eid
  case identify => exact identify_frame hcmd
  case abortCmd => exact .ret (Frame.refl cmd d)
  case setFeatures =>
    unfold nvmevAdminSetFeatures
    rw [hcmd, ok_bind]
    split
    · refine Frame.post ?_ _ _ _ _
      exact ⟨fun _ _ => rfl, fun _ _ => rfl⟩
    · exact hpost _ _ _
  case getFeatures =>
    unfold nvmevAdminGetFeatures
    rw [hcmd, ok_bind]
    exact hpost _ _ _
  -- a completion and nothing else
  all_goals exact hpost _ _ _

end Admin

/-! ## What the steps of a worker leave outstanding -/

section Items

variable {s s' : Io.Sys β} {e : Nat}

theorem payload_keys {w w' : IoWork β} (hp : w'.payload = w.payload) :
    w'.sqid = w.sqid ∧ w'.cqid = w.cqid ∧ w'.isInternal = w.isInternal ∧ w'.isCompleted = w.isCompleted :=
  ⟨(congrArg IoWork.sqid hp :), (congrArg IoWork.cqid hp :), (congrArg IoWork.isInternal hp :),
    (congrArg IoWork.isCompleted hp :)⟩

/-- The item in entry `e` and the queues it names. -/
structure SameItem (s s' : Io.Sys β) (e : Nat) : Prop where
  owner : s'.owner e = s.owner e
  sqid : (s'.worker.workQueue e).sqid = (s.worker.workQueue e).sqid
  cqid : (s'.worker.workQueue e).cqid = (s.worker.workQueue e).cqid

/-- An item that is outstanding was so before, with the same queues. -/
def Keeps (s s' : Io.Sys β) (e : Nat) : Prop := Outstanding s' e → Outstanding s e ∧ SameItem s s' e

theorem Keeps.of_payload (hp : (s'.worker.workQueue e).payload = (s.worker.workQueue e).payload)
    (ho : s'.owner e = s.owner e)
    (hlog : ∀ work, .enqueued (s.owner e) e work ∈ s'.log → .enqueued (s.owner e) e work ∈ s.log) :
    Keeps s s' e := by
  obtain ⟨hsqid, hcqid, hint, hcomp⟩ := payload_keys hp
  rintro ⟨⟨work, hmem⟩, h1, h2⟩
  rw [ho] at hmem
  exact ⟨⟨⟨work, hlog work hmem⟩, hint.symm.trans h1, hcomp.symm.trans h2⟩, ho, hsqid, hcqid⟩

/-- Without a free entry, an enqueue changes nothing. -/
theorem enqueue_none (h : allocateWorkQueueEntry s.worker = none) (work : IoWork β → IoWork β) :
    s.enqueue work = s := by
  unfold Io.Sys.enqueue enqueueWork
  rw [h]

/-- With one, the new item is in some entry, and the others keep theirs. -/
theorem enqueue_some (h : allocateWorkQueueEntry s.worker ≠ none) (work : IoWork β → IoWork β) :
    (s.enqueue work).nrItems = s.nrItems + 1 ∧ ∃ e w, (s.enqueue work).owner e = s.nrItems ∧
      ((s.enqueue work).worker.workQueue e).payload = (work w).payload ∧
      (∃ work', .enqueued s.nrItems e work' ∈ (s.enqueue work).log) ∧
      ∀ a ≠ e, Keeps s (s.enqueue work) a := by
  unfold Io.Sys.enqueue enqueueWork allocateWorkQueueEntry at *
  dsimp only at h ⊢
  by_cases hfull : nrMaxParallelIo ≤ (s.worker.workQueue s.worker.freeSeq).next
  · rw [if_pos hfull] at h
    exact absurd rfl h
  rw [if_neg hfull]
  refine ⟨rfl, s.worker.freeSeq, s.worker.workQueue s.worker.freeSeq, update_self .., ?_,
    ⟨_, List.mem_append_right _ (List.mem_singleton.mpr rfl)⟩,
    fun a ha => Keeps.of_payload ?_ (update_of_ne ha _ _) fun work' hmem => ?_⟩
  · dsimp only
    rw [IoWorker.insertReqSorted_payload]
    simp
  · dsimp only
    rw [IoWorker.insertReqSorted_payload]
    simp [ha]
  · obtain hmem | hmem := List.mem_append.mp hmem
    · exact hmem
    · exact absurd (Io.Event.enqueued.inj (List.mem_singleton.mp hmem)).2.1 ha

theorem copyWork_keys (w : IoWork β) (kv : Option (Nat × Nat)) :
    (copyWork w kv).1.sqid = w.sqid ∧ (copyWork w kv).1.cqid = w.cqid ∧
      (copyWork w kv).1.isInternal = w.isInternal ∧ (copyWork w kv).1.isCompleted = w.isCompleted := by
  unfold copyWork
  split
  · exact ⟨rfl, rfl, rfl, rfl⟩
  split
  · exact ⟨rfl, rfl, rfl, rfl⟩
  · cases kv <;> exact ⟨rfl, rfl, rfl, rfl⟩

theorem completeWork_keys (w : IoWork β) (now : Nat) :
    (completeWork w now).1.sqid = w.sqid ∧ (completeWork w now).1.cqid = w.cqid ∧
      (completeWork w now).1.isInternal = w.isInternal ∧
      ((completeWork w now).1.isCompleted = false → w.isCompleted = false) := by
  unfold completeWork
  split
  · exact ⟨rfl, rfl, rfl, fun h => by cases h⟩
  · exact ⟨rfl, rfl, rfl, id⟩

/-- The events of a visit are no enqueues. -/
theorem mem_log_visit {log : List (Io.Event β)} {effects : List (Effect β)} {item now item' e' : Nat}
    {work : IoWork β} (h : .enqueued item' e' work ∈ log ++ effects.map (Io.eventOf item now)) :
    .enqueued item' e' work ∈ log := by
  obtain h | h := List.mem_append.mp h
  · exact h
  · obtain ⟨effect, -, heq⟩ := List.mem_map.mp h
    cases effect <;> cases heq

theorem visit_keeps (now : Nat) (kv : Option (Nat × Nat)) (e : Nat) :
    Keeps s (Io.step s (.visit now kv)) e := by
  unfold Io.step
  dsimp only
  split
  · exact Keeps.of_payload rfl rfl fun _ => id
  unfold visitEntry
  dsimp only
  split
  · exact Keeps.of_payload rfl rfl fun _ => mem_log_visit
  dsimp only
  by_cases he : e = s.curr
  · subst he
    obtain ⟨h1, h2, h3, h4⟩ := copyWork_keys (s.worker.workQueue s.curr) kv
    obtain ⟨h5, h6, h7, h8⟩ := completeWork_keys (copyWork (s.worker.workQueue s.curr) kv).1 now
    rintro ⟨⟨work, hmem⟩, hint, hcomp⟩
    simp only [IoWorker.setWork_workQueue, update_self] at hint hcomp
    refine ⟨⟨⟨work, mem_log_visit hmem⟩, (h7.trans h3).symm.trans hint, h4.symm.trans (h8 hcomp)⟩, rfl, ?_, ?_⟩
    · simpa using h5.trans h1
    · simpa using h6.trans h2
  · refine Keeps.of_payload ?_ rfl fun _ => mem_log_visit
    simp [he]

/-- A step that is not a dispatch makes no item of the host. -/
theorem other_keeps {action : Io.Action β} (hreq : ∀ sqid cqid sqEntry commandId nsecsStart nsecsEnqueue ret,
    action ≠ .enqueue sqid cqid sqEntry commandId nsecsStart nsecsEnqueue ret) (e : Nat) :
    Keeps s (Io.step s action) e := by
  cases action with
  | enqueue => exact absurd rfl (hreq _ _ _ _ _ _ _)
  | internal sqid nsecsTarget now writeBuffer buffsToRelease =>
    change Keeps s (s.enqueue _) e
    by_cases hfree : allocateWorkQueueEntry s.worker = none
    · rw [enqueue_none hfree]
      exact Keeps.of_payload rfl rfl fun _ => id
    · obtain ⟨-, e', w, -, hp, -, hkeep⟩ := enqueue_some hfree fun old =>
        internalWork old sqid nsecsTarget now writeBuffer buffsToRelease
      by_cases he : e = e'
      · subst he
        rintro ⟨-, hint, -⟩
        rw [(payload_keys hp).2.2.1] at hint
        cases hint
      · exact hkeep e he
  | reclaim => exact Keeps.of_payload (IoWorker.Lists.reclaimCompletedReqs_payload _ e) rfl fun _ => id
  | scan =>
    unfold Io.step
    dsimp only
    split <;> exact Keeps.of_payload rfl rfl fun _ => id
  | visit now kv => exact visit_keeps now kv e

end Items

/-! ## The invariant -/

/-- The lists of the workers are well formed, and the outstanding items have their queues. -/
structure Inv (s : Sys β) : Prop where
  lists : ∀ i, ∃ virgin reclaimed io, Io.SysInv (s.workers i) virgin reclaimed io
  live : AllLive s

section Steps

variable {s s' : Sys β}

/-- An item keeps its queues if no pointer to them is stored. -/
theorem Live.transfer {i e : Nat} (h : Live s i e) (hs : SameItem (s.workers i) (s'.workers i) e)
    (hsq : ∀ qid, qid = ((s.workers i).worker.workQueue e).sqid →
      s'.dev.sqes qid = s.dev.sqes qid ∧ s'.sqStores qid = s.sqStores qid)
    (hcq : ∀ qid, qid = ((s.workers i).worker.workQueue e).cqid →
      s'.dev.cqes qid = s.dev.cqes qid ∧ s'.cqStores qid = s.cqStores qid)
    (ho : s'.origin i ((s.workers i).owner e) = s.origin i ((s.workers i).owner e)) : Live s' i e := by
  obtain ⟨hsq, hsqStores⟩ := hsq _ hs.sqid
  obtain ⟨hcq, hcqStores⟩ := hcq _ hs.cqid
  refine ⟨?_, ?_, ?_⟩
  · rw [hsq, hs.sqid]
    exact h.sq
  · rw [hcq, hs.cqid]
    exact h.cq
  · rw [hs.owner, ho, hsqStores, hcqStores, hs.sqid, hs.cqid]
    exact h.same

theorem SameItem.refl (s : Io.Sys β) (e : Nat) : SameItem s s e := ⟨rfl, rfl, rfl⟩

/-- A step of one worker that makes no item of the host. -/
theorem Inv.worker (h : Inv s) {i : Nat} {worker : Io.Sys β}
    (hlists : ∃ virgin reclaimed io, Io.SysInv worker virgin reclaimed io)
    (hkeep : ∀ e, Keeps (s.workers i) worker e) :
    Inv { s with workers := update s.workers i worker } := by
  refine ⟨fun j => ?_, fun j e hout => ?_⟩
  · dsimp only
    by_cases hj : j = i
    · subst hj
      rw [update_self]
      exact hlists
    · rw [update_of_ne hj]
      exact h.lists j
  · have hsame : Outstanding (s.workers j) e ∧ SameItem (s.workers j) (update s.workers i worker j) e := by
      dsimp only at hout
      by_cases hj : j = i
      · subst hj
        rw [update_self] at hout ⊢
        exact hkeep e hout
      · rw [update_of_ne hj] at hout ⊢
        exact ⟨hout, .refl _ e⟩
    exact (h.live j e hsame.1).transfer hsame.2 (fun _ _ => ⟨rfl, rfl⟩) (fun _ _ => ⟨rfl, rfl⟩) rfl

theorem Inv.other (h : Inv s) (i : Nat) (action : Io.Action β) : Inv (step s (.other i action)) := by
  cases action with
  | enqueue => exact h
  | _ =>
    obtain ⟨virgin, reclaimed, io, hl⟩ := h.lists i
    exact h.worker (hl.step _) (other_keeps (by intros; simp))

/-- A dispatch makes one item, whose queues are the ones of now. -/
theorem Inv.dispatch (h : Inv s) {i sqid sqEntry commandId nsecsStart nsecsEnqueue : Nat} {ret : Result}
    (hd : Drained s (.dispatch i sqid sqEntry commandId nsecsStart nsecsEnqueue ret)) :
    Inv (s.dispatch i sqid sqEntry commandId nsecsStart nsecsEnqueue ret) := by
  unfold Sys.dispatch
  cases hsq : s.dev.sqes sqid with
  | none => exact h
  | some sq =>
    have hcq := hd sq hsq
    obtain ⟨virgin, reclaimed, io, hl⟩ := h.lists i
    have hl' := hl.step (.enqueue sqid sq.cqid sqEntry commandId nsecsStart nsecsEnqueue ret)
    dsimp only
    generalize hstep : Io.step (s.workers i)
      (.enqueue sqid sq.cqid sqEntry commandId nsecsStart nsecsEnqueue ret) = worker at hl' ⊢
    change (s.workers i).enqueue (fun old =>
      requestWork old sqid sq.cqid sqEntry commandId nsecsStart nsecsEnqueue ret) = worker at hstep
    by_cases hfree : allocateWorkQueueEntry (s.workers i).worker = none
    · rw [enqueue_none hfree] at hstep
      subst hstep
      rw [if_pos rfl, update_eq_self]
      exact h
    obtain ⟨hn, e₀, w, ho, hp, -, hkeep⟩ := enqueue_some hfree fun old =>
      requestWork old sqid sq.cqid sqEntry commandId nsecsStart nsecsEnqueue ret
    rw [hstep] at hn ho hp hkeep
    rw [if_neg (by omega)]
    refine ⟨fun j => ?_, fun j e hout => ?_⟩
    · dsimp only
      by_cases hj : j = i
      · subst hj
        rw [update_self]
        exact hl'
      · rw [update_of_ne hj]
        exact h.lists j
    dsimp only at hout
    by_cases hj : j = i
    · subst hj
      rw [update_self] at hout
      by_cases he : e = e₀
      · subst he
        obtain ⟨hsqid, hcqid, -, -⟩ := payload_keys hp
        refine ⟨?_, ?_, ?_⟩
        all_goals simp only [update_self, hsqid, hcqid, ho, requestWork]
        · rw [hsq]
          rfl
        · exact hcq hfree
      · obtain ⟨hold, hsame⟩ := hkeep e he hout
        obtain ⟨work, hmem⟩ := hold.enqueued
        have hlt : (s.workers j).owner e < (s.workers j).nrItems := hl.log.known _ hmem
        refine (h.live j e hold).transfer ?_ (fun _ _ => ⟨rfl, rfl⟩) (fun _ _ => ⟨rfl, rfl⟩) ?_
        · dsimp only
          rw [update_self]
          exact hsame
        · dsimp only
          rw [update_self, update_of_ne (Nat.ne_of_lt hlt)]
    · rw [update_of_ne hj] at hout
      refine (h.live j e hout).transfer ?_ (fun _ _ => ⟨rfl, rfl⟩) (fun _ _ => ⟨rfl, rfl⟩) ?_
      · dsimp only
        rw [update_of_ne hj]
        exact .refl _ e
      · dsimp only
        rw [update_of_ne hj]

/-- A command that stores no pointer to a queue of an outstanding item. -/
theorem Inv.admin (h : Inv s) {ring : Nat → Nat → NvmeCompletion} {eid : Nat}
    (hd : Drained s (.admin ring eid)) : Inv (s.admin ring eid) := by
  unfold Sys.admin
  split
  · rename_i cmd dev hcmd hok
    have hframe := procAdminReq_frame ring hcmd dev hok
    refine ⟨h.lists, fun i e hout => ?_⟩
    obtain ⟨hnosq, hnocq⟩ := hd cmd dev hcmd hok i e hout
    refine (h.live i e hout).transfer (.refl _ e) ?_ ?_ rfl
    · rintro qid rfl
      exact ⟨hframe.sqes _ hnosq, if_neg hnosq⟩
    · rintro qid rfl
      exact ⟨hframe.cqes _ hnocq, if_neg hnocq⟩
  · exact h

theorem Inv.step (h : Inv s) (a : Action β) (hd : Drained s a) : Inv (step s a) := by
  cases a with
  | submit eid cmd =>
    refine ⟨h.lists, fun i e hout => ?_⟩
    exact (h.live i e hout).transfer (.refl _ e) (fun _ _ => ⟨rfl, rfl⟩) (fun _ _ => ⟨rfl, rfl⟩) rfl
  | admin ring eid => exact h.admin hd
  | dispatch => exact h.dispatch hd
  | other i action => exact h.other i action

/-- A command that stores a pointer to a queue of an outstanding item takes it away from the item. -/
theorem Inv.admin_leaves (h : Inv s) {ring : Nat → Nat → NvmeCompletion} {eid : Nat}
    (hd : ¬ Drained s (.admin ring eid)) : ¬ AllLive (s.admin ring eid) := by
  intro hall
  refine hd fun cmd dev hcmd hok i e hout => ?_
  have hnow := (hall i e (by unfold Sys.admin; rw [hcmd, hok]; exact hout)).same
  unfold Sys.admin at hnow
  rw [hcmd, hok] at hnow
  dsimp only at hnow
  rw [(h.live i e hout).same, Option.some.injEq, Prod.mk.injEq] at hnow
  obtain ⟨hsq, hcq⟩ := hnow
  refine ⟨fun hstore => ?_, fun hstore => ?_⟩
  · rw [if_pos hstore] at hsq
    omega
  · rw [if_pos hstore] at hcq
    omega

/-- An item that is dispatched without a completion queue has none. -/
theorem dispatch_leaves {i sqid sqEntry commandId nsecsStart nsecsEnqueue : Nat} {ret : Result}
    (hd : ¬ Drained s (.dispatch i sqid sqEntry commandId nsecsStart nsecsEnqueue ret)) :
    ¬ AllLive (s.dispatch i sqid sqEntry commandId nsecsStart nsecsEnqueue ret) := by
  intro hall
  refine hd fun sq hsq hfree => ?_
  obtain ⟨hn, e, w, ho, hp, hmem, -⟩ := enqueue_some hfree fun old =>
    requestWork old sqid sq.cqid sqEntry commandId nsecsStart nsecsEnqueue ret
  obtain ⟨-, hcqid, hint, hcomp⟩ := payload_keys hp
  have hworkers : (s.dispatch i sqid sqEntry commandId nsecsStart nsecsEnqueue ret).workers i =
      (s.workers i).enqueue fun old =>
        requestWork old sqid sq.cqid sqEntry commandId nsecsStart nsecsEnqueue ret := by
    unfold Sys.dispatch
    rw [hsq]
    dsimp only
    split <;> exact update_self ..
  have hdev : (s.dispatch i sqid sqEntry commandId nsecsStart nsecsEnqueue ret).dev = s.dev := by
    unfold Sys.dispatch
    rw [hsq]
    dsimp only
    split <;> rfl
  have hlive := (hall i e (by rw [hworkers]; exact ⟨by rw [ho]; exact hmem, hint, hcomp⟩)).cq
  rw [hworkers, hdev, hcqid] at hlive
  exact hlive

theorem Inv.leave (h : Inv s) (a : Action β) (hd : ¬ Drained s a) : ¬ AllLive (Lifetimes.step s a) := by
  cases a with
  | admin ring eid => exact h.admin_leaves hd
  | dispatch => exact dispatch_leaves hd
  | submit | other => exact absurd trivial hd

/-- The cursor is on an entry that was allocated, so a copy or a completion is for an outstanding item. -/
theorem Inv.safe (h : Inv s) (a : Action β) : Safe s a := by
  cases a with
  | submit | admin | dispatch => trivial
  | other i action =>
    cases action with
    | enqueue | internal | reclaim | scan => trivial
    | visit now kv =>
      intro hne effect hmem hreq
      obtain ⟨virgin, reclaimed, io, hl⟩ := h.lists i
      obtain ⟨work, hlog, -⟩ := (hl.entry _ (hl.curr.resolve_left hne)).enqueued
      refine h.live i _ ⟨⟨work, hlog⟩, ?_, ?_⟩
      · by_contra hint
        obtain ⟨writeBuffer, bytes, rfl⟩ := Sq.visit_internal _ _ now kv (by simpa using hint) effect hmem
        exact hreq
      · by_contra hcomp
        unfold visitEntry at hmem
        rw [if_pos (by simpa using hcomp)] at hmem
        cases hmem

theorem inv_init (dev : AdminDev) : Inv ({ dev } : Sys β) :=
  ⟨fun _ => ⟨_, _, _, Io.SysInv.init⟩, fun _ _ hout => by
    obtain ⟨⟨_, hmem⟩, -, -⟩ := hout
    cases hmem⟩

end Steps

end Lifetimes

/-- Any device and any number of workers, in any interleaving of admin commands, dispatch and worker steps:
in every state the queues of every outstanding work item are the ones of its dispatch exactly if a command
that creates or deletes a queue comes when no outstanding item names it, and an item is dispatched when its
completion queue is there. In such a run every copy and every completion finds the queues. -/
theorem outstanding_items_live_iff {β : Type} (dev : AdminDev) (actions : List (Lifetimes.Action β)) :
    (AllStates Lifetimes.step Lifetimes.AllLive { dev } actions ↔
      AllSteps Lifetimes.step Lifetimes.Drained { dev } actions) ∧
    (AllSteps Lifetimes.step Lifetimes.Drained { dev } actions →
      AllSteps Lifetimes.step Lifetimes.Safe { dev } actions) := by
  have hinit := Lifetimes.inv_init (β := β) dev
  refine ⟨good_iff hinit (fun _ h => h.live) (fun s a h hd => h.step a hd) fun s a h hd => h.leave a hd,
    fun hd l a hl => ?_⟩
  have hinv := invariant hinit hd (fun s a h hd => h.step a hd) l ((List.prefix_append l [a]).trans hl)
  exact hinv.safe a

/-- A device with an admin queue of four entries and nothing else. -/
def Lifetimes.freshDev : AdminDev where
  adminQ := some
    { phase := true, sqDepth := 4, cqDepth := 4, cqHead := 0
      nvmeSq := some fun _ => { opcode := .asyncEvent, commandId := 0 }
      nvmeCq := some fun _ => ⟨0, 0, 0, 0, 0, 0⟩ }
  sqes _ := none
  cqes _ := none
  dbs _ := 0
  oldDbs _ := 0
  nrSq := 1
  nrCq := 1
  ns := []
  mdts := 5
  room _ := 0

/-- The host creates a completion queue and a submission queue, both number 1, and deletes the submission
queue while a command is in the list of a worker. -/
def Lifetimes.deleteUnderCommand : List (Lifetimes.Action Unit) :=
  [.submit 0 { opcode := .createCq, commandId := 0, cdw10 := 0x30001 },
    .submit 1 { opcode := .createSq, commandId := 1, cdw10 := 0x30001, cdw11 := 0x10000 },
    .submit 2 { opcode := .deleteSq, commandId := 2, cdw10 := 1 },
    .admin (fun _ _ => ⟨0, 0, 0, 0, 0, 0⟩) 0, .admin (fun _ _ => ⟨0, 0, 0, 0, 0, 0⟩) 1,
    .dispatch 0 1 0 7 0 0 { status := 0, nsecsTarget := 100 },
    .admin (fun _ _ => ⟨0, 0, 0, 0, 0, 0⟩) 2, .other 0 .scan]

/-- The worker copies for the command of the deleted queue, and `sqes[1]` is null. -/
theorem copy_after_delete_sq : ¬ AllSteps Lifetimes.step Lifetimes.Safe { dev := Lifetimes.freshDev }
    (Lifetimes.deleteUnderCommand ++ [.other 0 (.visit 1 none)]) := by
  intro h
  have hlive := (h Lifetimes.deleteUnderCommand _ (List.prefix_refl _) (by decide) (.copy none 0)
    (by exact .head _) trivial).sq
  revert hlive
  decide

end Nvmev
