import NvmeVirt.Admin.Commands

/-!
# Every admin command is completed

`nvmev_proc_admin_sq` runs the handlers of the submitted entries, and each handler posts the completion of
its command by itself.

`admin_commands_completed_iff`: the batch ends with one completion for each entry, in order, at
consecutive slots and with the phase tag flipped at each wrap, exactly if no entry is an abort command,
whose case posts nothing, every entry names queues and namespaces that the tables of the device have, no
log page is longer than the object it is copied from, and the data of every entry fits where it is
written.
-/

namespace Nvmev

open CInt Function PhaseRing Outcome

namespace Admin

/-- The queue or the namespace that the command names is in the tables of the device. -/
def InTables (ns : List NvmevNs) (cmd : AdminCommand) : Prop :=
  match cmd.opcode with
  | .deleteSq | .createSq | .deleteCq | .createCq => cmd.qid ≤ nrMaxIoQueue
  | .identify => cmd.cns = 0x00 ∨ cmd.cns = 0x03 ∨ cmd.cns = 0x05 → dec32 (u32 cmd.nsid) < ns.length
  | _ => True

/-- The bytes that `__nvmev_admin_identify` writes for the host. -/
def identifyBytes (ns : List NvmevNs) (cmd : AdminCommand) : Nat :=
  match cmd.cns with
  | 0x00 | 0x01 | 0x03 => pageSize
  | 0x02 => 2 * pageSize
  | 0x05 => if ns[dec32 (u32 cmd.nsid)]?.map NvmevNs.csi = some 0x2 then pageSize else 0
  | 0x06 => 1
  | _ => 0

/-- The bytes that the handler of a command writes for the host. -/
def dataBytes (ns : List NvmevNs) (cmd : AdminCommand) : Nat :=
  match cmd.opcode with
  | .getLogPage => cmd.logLength
  | .identify => identifyBytes ns cmd
  | _ => 0

/-- The command is one that is completed. -/
structure Handled (ns : List NvmevNs) (room : Nat → Nat) (cmd : AdminCommand) : Prop where
  notAbort : cmd.opcode ≠ .abortCmd
  inTables : InTables ns cmd
  inObject : cmd.opcode = .getLogPage → ∀ size ∈ logObject cmd.lid, cmd.logLength ≤ size
  inRoom : dataBytes ns cmd ≤ room cmd.prp1

variable {ns : List NvmevNs} {room : Nat → Nat} {cmd : AdminCommand}

theorem inTables_queue (h : cmd.opcode ∈ [.deleteSq, .createSq, .deleteCq, .createCq]) :
    InTables ns cmd ↔ cmd.qid ≤ nrMaxIoQueue := by
  unfold InTables
  simp only [List.mem_cons, List.not_mem_nil, or_false] at h
  obtain h | h | h | h := h <;> rw [h]

theorem dataBytes_other (hlog : cmd.opcode ≠ .getLogPage) (hid : cmd.opcode ≠ .identify) :
    dataBytes ns cmd = 0 := by
  unfold dataBytes
  split
  case h_1 h => exact absurd h hlog
  case h_2 h => exact absurd h hid
  case h_3 => rfl

/-- A command without data. -/
theorem Handled.noData (hna : cmd.opcode ≠ .abortCmd) (hin : InTables ns cmd)
    (hlog : cmd.opcode ≠ .getLogPage) (hid : cmd.opcode ≠ .identify) : Handled ns room cmd :=
  ⟨hna, hin, fun h => absurd h hlog, by rw [dataBytes_other hlog hid]; exact Nat.zero_le _⟩

theorem handled_other (h : cmd.opcode ∉
    [.deleteSq, .createSq, .deleteCq, .createCq, .identify, .abortCmd, .getLogPage]) :
    Handled ns room cmd := by
  simp only [List.mem_cons, List.not_mem_nil, or_false, not_or] at h
  obtain ⟨h1, h2, h3, h4, hid, hna, hlog⟩ := h
  refine Handled.noData hna ?_ hlog hid
  unfold InTables
  split
  case h_1 | h_2 | h_3 | h_4 | h_5 => contradiction
  case h_6 => trivial

/-- The queue `queue` with its rings, `j` completions later. -/
structure At (queue : AdminQueue) (sq : Nat → AdminCommand) (ns : List NvmevNs) (room : Nat → Nat)
    (j : Nat) (cq : Nat → NvmeCompletion) (d : AdminDev) : Prop where
  adminQ : d.adminQ = some { queue with
    cqHead := (queue.cqHead + j) % queue.cqDepth
    phase := queue.phase == lap queue.cqDepth (queue.cqHead + j)
    nvmeSq := some sq
    nvmeCq := some cq }
  ns : d.ns = ns
  room : d.room = room

/-- The completion number `j` after `queue`, of the command `cmd`, with its slot. -/
structure IsPost (queue : AdminQueue) (j : Nat) (cmd : AdminCommand) (p : Nat × NvmeCompletion) : Prop where
  slot : p.1 = (queue.cqHead + j) % queue.cqDepth
  commandId : p.2.commandId = u16 cmd.commandId
  phaseTag : p.2.phaseTag = (queue.phase == lap queue.cqDepth (queue.cqHead + j))

/-- One completion is posted. -/
def Completes (queue : AdminQueue) (sq : Nat → AdminCommand) (ns : List NvmevNs) (room : Nat → Nat)
    (j : Nat) (cq : Nat → NvmeCompletion) (eid : Nat) (d d' : AdminDev) : Prop :=
  ∃ p, IsPost queue j (sq eid) p ∧ d'.posted = d.posted ++ [p] ∧
    At queue sq ns room (j + 1) (update cq p.1 p.2) d'

section Steps

variable {queue : AdminQueue} {sq : Nat → AdminCommand} {j : Nat} {cq : Nat → NvmeCompletion} {d d₁ : AdminDev}

theorem At.sqEntry (h : At queue sq ns room j cq d) (eid : Nat) : d.sqEntry eid = .ok (sq eid) := by
  unfold AdminDev.sqEntry
  rw [h.adminQ]
  rfl

theorem At.getNs (h : At queue sq ns room j cq d) (cmd : AdminCommand) (site : Site) :
    (dec32 (u32 cmd.nsid) < ns.length ∧
      ∃ n, ns[dec32 (u32 cmd.nsid)]? = some n ∧ d.getNs cmd site = .ok n) ∨
      (¬ dec32 (u32 cmd.nsid) < ns.length ∧ d.getNs cmd site = .error (.outOfBounds site)) := by
  unfold AdminDev.getNs
  rw [h.ns]
  by_cases hlt : dec32 (u32 cmd.nsid) < ns.length
  · rw [List.getElem?_eq_getElem hlt]
    exact .inl ⟨hlt, _, rfl, rfl⟩
  · rw [List.getElem?_eq_none (by omega)]
    exact .inr ⟨hlt, rfl⟩

theorem resultEntry_phaseTag (q : AdminQueue) (cmd : AdminCommand) (eid ret result0 result1 : Nat) :
    (AdminDev.resultEntry q cmd eid ret result0 result1).phaseTag = q.phase := by
  have hbit : u16 (q.phase.toNat ||| u16 ret <<< 1) % 2 = q.phase.toNat := by
    unfold u16
    rw [Nat.mod_mod_of_dvd _ (by decide), show (2 : Nat) = 2 ^ 1 from rfl, Nat.or_mod_two_pow,
      Nat.shiftLeft_eq, Nat.mul_mod_left, Nat.or_zero]
    cases q.phase <;> rfl
  unfold NvmeCompletion.phaseTag AdminDev.resultEntry
  rw [hbit]
  cases q.phase <;> rfl

/-- What the handlers leave alone until the completion. -/
structure Untouched (d d₁ : AdminDev) : Prop where
  adminQ : d₁.adminQ = d.adminQ
  ns : d₁.ns = d.ns
  room : d₁.room = d.room
  posted : d₁.posted = d.posted

theorem Untouched.refl (d : AdminDev) : Untouched d d := ⟨rfl, rfl, rfl, rfl⟩

theorem At.makeCqEntryResults (hd : 0 < queue.cqDepth) (h : At queue sq ns room j cq d)
    (hu : Untouched d d₁) (eid ret result0 result1 : Nat) :
    ∃ d', d₁.makeCqEntryResults eid ret result0 result1 = .ok d' ∧ Completes queue sq ns room j cq eid d d' := by
  have h₁ : At queue sq ns room j cq d₁ :=
    ⟨hu.adminQ.trans h.adminQ, hu.ns.trans h.ns, hu.room.trans h.room⟩
  unfold AdminDev.makeCqEntryResults
  rw [h₁.sqEntry, ok_bind, h₁.adminQ]
  refine ⟨_, rfl, _, ⟨rfl, rfl, resultEntry_phaseTag _ _ _ _ _ _⟩, by rw [hu.posted],
    ⟨?_, h₁.ns, h₁.room⟩⟩
  -- the next head and the next phase
  have hnext : (queue.cqHead + (j + 1)) % queue.cqDepth =
      next queue.cqDepth ((queue.cqHead + j) % queue.cqDepth) := by
    rw [← mod_succ hd, Nat.add_assoc]
  have hlap : lap queue.cqDepth (queue.cqHead + (j + 1)) = nextTag queue.cqDepth
      ((queue.cqHead + j) % queue.cqDepth) (lap queue.cqDepth (queue.cqHead + j)) := by
    rw [← lap_succ hd, Nat.add_assoc]
  rw [hnext, hlap]
  unfold PhaseRing.next nextTag
  dsimp only
  by_cases hwrap : (queue.cqHead + j) % queue.cqDepth + 1 = queue.cqDepth
  · simp only [hwrap, if_true]
    cases queue.phase <;> cases lap queue.cqDepth (queue.cqHead + j) <;> rfl
  · simp only [hwrap, if_false]

/-- What a handler makes of a command: a completion, nothing, or an access outside a table, an object or
the memory for data. -/
inductive Reply (queue : AdminQueue) (sq : Nat → AdminCommand) (ns : List NvmevNs) (room : Nat → Nat)
    (j : Nat) (cq : Nat → NvmeCompletion) (eid : Nat) (d : AdminDev) : Except Bug AdminDev → Prop where
  | completed (d' : AdminDev) (handled : Handled ns room (sq eid)) (h : Completes queue sq ns room j cq eid d d') :
      Reply queue sq ns room j cq eid d (.ok d')
  | ignored (abort : (sq eid).opcode = .abortCmd) : Reply queue sq ns room j cq eid d (.ok d)
  | outside (e : Bug) (h : ¬ Handled ns room (sq eid)) : Reply queue sq ns room j cq eid d (.error e)

theorem Reply.post (hd : 0 < queue.cqDepth) (h : At queue sq ns room j cq d) {eid : Nat}
    (handled : Handled ns room (sq eid)) (hu : Untouched d d₁) (ret result0 result1 : Nat) :
    Reply queue sq ns room j cq eid d (d₁.makeCqEntryResults eid ret result0 result1) := by
  obtain ⟨d', hok, hc⟩ := h.makeCqEntryResults hd hu eid ret result0 result1
  rw [hok]
  exact .completed d' handled hc

/-- An access that is in bounds if the command is handled. -/
theorem Reply.ensure {c : Prop} [Decidable c] {e : Bug} {eid : Nat} {reply : Unit → Except Bug AdminDev}
    (hc : Handled ns room (sq eid) → c) (hr : c → Reply queue sq ns room j cq eid d (reply ())) :
    Reply queue sq ns room j cq eid d (Outcome.ensure c e >>= reply) := by
  by_cases h : c
  · rw [ensure_of _ h, ok_bind]
    exact hr h
  · rw [show Outcome.ensure c e = .error e from if_neg h]
    exact .outside _ fun hh => h (hc hh)

/-- A completion after the data. -/
theorem Reply.page (hd : 0 < queue.cqDepth) (h : At queue sq ns room j cq d) {eid : Nat} {page : DataPage}
    {site : Site} (hsize : dataBytes ns (sq eid) = page.size)
    (handled : dataBytes ns (sq eid) ≤ room (sq eid).prp1 → Handled ns room (sq eid)) :
    Reply queue sq ns room j cq eid d
      (d.writePage (sq eid) page site >>= fun d => d.makeCqEntry eid Sc.success) := by
  unfold AdminDev.writePage
  rw [bind_assoc]
  rw [hsize] at handled
  refine Reply.ensure (fun hh => ?_) fun hroom => ?_
  · rw [← hsize, h.room]
    exact hh.inRoom
  · rw [h.room] at hroom
    have hu : Untouched d { d with pages := d.pages ++ [((sq eid).prp1, page)] } := ⟨rfl, rfl, rfl, rfl⟩
    exact Reply.post hd h (handled hroom) hu _ _ _

/-- The four commands that name a queue. -/
theorem Reply.queueCommand (hd : 0 < queue.cqDepth) (h : At queue sq ns room j cq d) {eid : Nat} {site : Site}
    (hop : (sq eid).opcode ∈ [.deleteSq, .createSq, .deleteCq, .createCq]) {change : Nat → AdminDev}
    (hu : ∀ qid, Untouched d (change qid)) :
    Reply queue sq ns room j cq eid d
      (queueId (sq eid) site >>= fun qid => (change qid).makeCqEntry eid Sc.success) := by
  have hin : InTables ns (sq eid) ↔ _ := inTables_queue hop
  have hne {op : AdminOpcode} (h : op ∉ [.deleteSq, .createSq, .deleteCq, .createCq]) :
      (sq eid).opcode ≠ op := fun he => h (he ▸ hop)
  unfold queueId
  rw [bind_assoc]
  refine Reply.ensure (fun hh => hin.mp hh.inTables) fun hqid => ?_
  refine Reply.post hd h ?_ (hu _) _ _ _
  exact Handled.noData (hne (by decide)) (hin.mpr hqid) (hne (by decide)) (hne (by decide))

/-- The identify commands that read a namespace. -/
theorem Reply.namespaceCommand (h : At queue sq ns room j cq d) {eid : Nat} (site : Site)
    (hin : InTables ns (sq eid) ↔ dec32 (u32 (sq eid).nsid) < ns.length) {reply : NvmevNs → Except Bug AdminDev}
    (hr : dec32 (u32 (sq eid).nsid) < ns.length → ∀ n, ns[dec32 (u32 (sq eid).nsid)]? = some n →
      Reply queue sq ns room j cq eid d (reply n)) :
    Reply queue sq ns room j cq eid d (d.getNs (sq eid) site >>= reply) := by
  obtain ⟨hlt, n, hn, hok⟩ | ⟨hge, herr⟩ := h.getNs (sq eid) site
  · rw [hok]
    exact hr hlt n hn
  · rw [herr]
    exact .outside _ fun hh => hge (hin.mp hh.inTables)

theorem identify_reply (hd : 0 < queue.cqDepth) (h : At queue sq ns room j cq d) {eid : Nat}
    (hop : (sq eid).opcode = .identify) :
    Reply queue sq ns room j cq eid d (nvmevAdminIdentify d eid) := by
  have hin : InTables ns (sq eid) ↔ ((sq eid).cns = 0x00 ∨ (sq eid).cns = 0x03 ∨ (sq eid).cns = 0x05 →
      dec32 (u32 (sq eid).nsid) < ns.length) := by
    unfold InTables
    rw [hop]
  have hdata : dataBytes ns (sq eid) = identifyBytes ns (sq eid) := by
    unfold dataBytes
    rw [hop]
  have handled (hi : InTables ns (sq eid)) (hroom : dataBytes ns (sq eid) ≤ room (sq eid).prp1) :
      Handled ns room (sq eid) := by
    refine ⟨?_, hi, fun hlog => ?_, hroom⟩
    · rw [hop]
      exact AdminOpcode.noConfusion
    · rw [hop] at hlog
      cases hlog
  unfold identifyBytes at hdata
  unfold nvmevAdminIdentify
  rw [h.sqEntry, ok_bind]
  split
  case h_1 hcns =>
    unfold nvmevAdminIdentifyNamespace
    rw [h.sqEntry, ok_bind]
    rw [hcns] at hdata
    have hin' := hin.trans ⟨fun hi => hi (.inl hcns), fun hi _ => hi⟩
    exact Reply.namespaceCommand h _ hin' fun hlt n _ => Reply.page hd h hdata (handled (hin'.mpr hlt))
  case h_2 hcns =>
    unfold nvmevAdminIdentifyCtrl
    rw [h.sqEntry, ok_bind]
    rw [hcns] at hdata
    exact Reply.page hd h hdata (handled (hin.mpr (by rw [hcns]; simp)))
  case h_3 hcns =>
    unfold nvmevAdminIdentifyNamespaces
    rw [h.sqEntry, ok_bind]
    rw [hcns] at hdata
    exact Reply.page hd h hdata (handled (hin.mpr (by rw [hcns]; simp)))
  case h_4 hcns =>
    unfold nvmevAdminIdentifyNamespaceDesc
    rw [h.sqEntry, ok_bind]
    rw [hcns] at hdata
    have hin' := hin.trans ⟨fun hi => hi (.inr (.inl hcns)), fun hi _ => hi⟩
    exact Reply.namespaceCommand h _ hin' fun hlt n _ => Reply.page hd h hdata (handled (hin'.mpr hlt))
  case h_5 hcns =>
    unfold nvmevAdminIdentifyZnsNamespace
    rw [h.sqEntry, ok_bind]
    rw [hcns] at hdata
    have hin' := hin.trans ⟨fun hi => hi (.inr (.inr hcns)), fun hi _ => hi⟩
    refine Reply.namespaceCommand h _ hin' fun hlt n hn => ?_
    rw [hn] at hdata
    split
    · rename_i zp htype
      -- the assertion holds, as the command set follows from the type
      have hcsi : n.csi = 0x2 := by rw [NvmevNs.csi, htype]
      unfold nvmevAssert
      rw [ensure_of _ hcsi, ok_bind]
      rw [Option.map_some, hcsi] at hdata
      exact Reply.page hd h hdata (handled (hin'.mpr hlt))
    · rename_i htype
      -- nothing is written for a namespace of another type
      have hcsi : n.csi ≠ 0x2 := by
        unfold NvmevNs.csi
        split
        case h_4 zp hzns => exact absurd hzns (htype zp)
        all_goals exact Nat.noConfusion
      rw [if_neg (by simpa using hcsi)] at hdata
      exact Reply.post hd h (handled (hin'.mpr hlt) (hdata ▸ Nat.zero_le _)) (.refl d) _ _ _
  case h_6 hcns =>
    unfold nvmevAdminIdentifyZnsCtrl
    rw [h.sqEntry, ok_bind]
    rw [hcns] at hdata
    exact Reply.page hd h hdata (handled (hin.mpr (by rw [hcns]; simp)))
  case h_7 hne0 hne1 hne2 hne3 hne5 hne6 =>
    have hi : InTables ns (sq eid) := by
      refine hin.mpr ?_
      rintro (hc | hc | hc)
      · exact absurd hc hne0
      · exact absurd hc hne3
      · exact absurd hc hne5
    have hnone : dataBytes ns (sq eid) = 0 := by
      rw [hdata]
      split <;> first | rfl | contradiction
    exact Reply.post hd h (handled hi (hnone ▸ Nat.zero_le _)) (.refl d) _ _ _

/-- One handler for each opcode. -/
theorem procAdminReq_reply (hd : 0 < queue.cqDepth) (h : At queue sq ns room j cq d)
    (ring : Nat → Nat → NvmeCompletion) (eid : Nat) :
    Reply queue sq ns room j cq eid d (nvmevProcAdminReq ring d eid) := by
  unfold nvmevProcAdminReq
  rw [h.sqEntry, ok_bind]
  cases hop : (sq eid).opcode <;> dsimp only
  case deleteSq =>
    unfold nvmevAdminDeleteSq
    rw [h.sqEntry, ok_bind]
    exact Reply.queueCommand hd h (by simp [hop]) fun _ => ⟨rfl, rfl, rfl, rfl⟩
  case createSq =>
    unfold nvmevAdminCreateSq
    rw [h.sqEntry, ok_bind]
    exact Reply.queueCommand hd h (by simp [hop]) fun _ => ⟨rfl, rfl, rfl, rfl⟩
  case deleteCq =>
    unfold nvmevAdminDeleteCq
    rw [h.sqEntry, ok_bind]
    exact Reply.queueCommand hd h (by simp [hop]) fun _ => ⟨rfl, rfl, rfl, rfl⟩
  case createCq =>
    unfold nvmevAdminCreateCq
    rw [h.sqEntry, ok_bind]
    exact Reply.queueCommand hd h (by simp [hop]) fun _ => ⟨rfl, rfl, rfl, rfl⟩
  case identify => exact identify_reply hd h hop
  case abortCmd => exact .ignored hop
  case getLogPage =>
    unfold nvmevAdminGetLogPage
    rw [h.sqEntry, ok_bind]
    have hdata : dataBytes ns (sq eid) = (sq eid).logLength := by
      unfold dataBytes
      rw [hop]
    refine Reply.ensure (fun hh => hh.inObject hop) fun hobject => Reply.page hd h ?_ fun hroom => ?_
    · rw [hdata]
      split <;> rfl
    · refine ⟨?_, ?_, fun _ => hobject, hroom⟩
      · rw [hop]
        exact AdminOpcode.noConfusion
      · unfold InTables
        rw [hop]
        trivial
  case setFeatures =>
    unfold nvmevAdminSetFeatures
    rw [h.sqEntry, ok_bind]
    have handled : Handled ns room (sq eid) := handled_other (by simp [hop])
    split
    · refine Reply.post hd h handled ?_ _ _ _
      exact ⟨rfl, rfl, rfl, rfl⟩
    · exact Reply.post hd h handled (.refl d) _ _ _
  case getFeatures =>
    unfold nvmevAdminGetFeatures
    rw [h.sqEntry, ok_bind]
    exact Reply.post hd h (handled_other (by simp [hop])) (.refl d) _ _ _
  case asyncEvent => exact Reply.post hd h (handled_other (by simp [hop])) (.refl d) _ _ _
  -- the opcodes that are not handled
  all_goals exact Reply.post hd h (handled_other (by simp [hop])) (.refl d) _ _ _

end Steps

/-! ## A batch -/

/-- The number of entries from doorbell `oldDb` to doorbell `newDb`. -/
def numSubmitted (queue : AdminQueue) (newDb oldDb : Nat) : Nat :=
  (newDb + (queue.sqDepth - oldDb)) % queue.sqDepth

/-- The `i`-th entry from doorbell `oldDb` on. -/
def submitted (queue : AdminQueue) (sq : Nat → AdminCommand) (oldDb i : Nat) : AdminCommand :=
  sq ((oldDb + i) % queue.sqDepth)

/-- The completions `posts` in the memory of the queue. -/
def fillAll (cq : Nat → NvmeCompletion) (posts : List (Nat × NvmeCompletion)) : Nat → NvmeCompletion :=
  posts.foldl (fun cq p => update cq p.1 p.2) cq

section Batch

variable {queue : AdminQueue} {sq : Nat → AdminCommand} {cq : Nat → NvmeCompletion} {d d' : AdminDev}
  {oldDb n : Nat} {ring : Nat → Nat → NvmeCompletion}

/-- A run of the loop over entries that are all completed. -/
theorem procAdminLoop_handled (hd : 0 < queue.cqDepth) (hs : 0 < queue.sqDepth) {k : Nat}
    (h : At queue sq ns room k cq d)
    (hall : ∀ i, k ≤ i → i < k + n → Handled ns room (submitted queue sq oldDb i)) :
    ∃ d' posts, procAdminLoop ring queue.sqDepth n ((oldDb + k) % queue.sqDepth) d = .ok d' ∧
      d'.posted = d.posted ++ posts ∧ At queue sq ns room (k + n) (fillAll cq posts) d' ∧
      List.Forall₂ (fun i p => IsPost queue i (submitted queue sq oldDb i) p) (List.range' k n) posts := by
  induction n generalizing k cq d with
  | zero => exact ⟨d, [], rfl, by simp, h, .nil⟩
  | succ n ih =>
    have hk := hall k (Nat.le_refl k) (by omega)
    unfold procAdminLoop
    have hreply := procAdminReq_reply hd h ring ((oldDb + k) % queue.sqDepth)
    generalize nvmevProcAdminReq ring d ((oldDb + k) % queue.sqDepth) = x at hreply ⊢
    obtain ⟨d₁, -, p, hp, hposted, h₁⟩ | habort | ⟨e, hout⟩ := hreply
    · obtain ⟨d', posts, hok, hposted', h', hf⟩ := ih h₁ fun i hi hlt => hall i (by omega) (by omega)
      have hcurr : (if (oldDb + k) % queue.sqDepth + 1 = queue.sqDepth then 0
          else (oldDb + k) % queue.sqDepth + 1) = (oldDb + (k + 1)) % queue.sqDepth := by
        rw [← Nat.add_assoc, mod_succ hs, PhaseRing.next]
      refine ⟨d', p :: posts, ?_, ?_, ?_, ?_⟩
      · rw [ok_bind, hcurr, hok]
      · rw [hposted', hposted, List.append_assoc]
        rfl
      · rw [Nat.add_right_comm] at h'
        exact h'
      · exact .cons hp hf
    · exact absurd habort hk.notAbort
    · exact absurd hk hout

/-- A run that returns posts at most one completion for each entry, and one for each only if all are
completed. -/
theorem procAdminLoop_posted (hd : 0 < queue.cqDepth) (hs : 0 < queue.sqDepth) {j k : Nat}
    (h : At queue sq ns room j cq d)
    (hok : procAdminLoop ring queue.sqDepth n ((oldDb + k) % queue.sqDepth) d = .ok d') :
    d'.posted.length ≤ d.posted.length + n ∧ (d'.posted.length = d.posted.length + n →
      ∀ i, k ≤ i → i < k + n → Handled ns room (submitted queue sq oldDb i)) := by
  induction n generalizing j k cq d with
  | zero =>
    cases hok
    exact ⟨Nat.le_refl _, fun _ i hi hlt => by omega⟩
  | succ n ih =>
    unfold procAdminLoop at hok
    have hcurr : (if (oldDb + k) % queue.sqDepth + 1 = queue.sqDepth then 0
        else (oldDb + k) % queue.sqDepth + 1) = (oldDb + (k + 1)) % queue.sqDepth := by
      rw [← Nat.add_assoc, mod_succ hs, PhaseRing.next]
    rw [hcurr] at hok
    have hreply := procAdminReq_reply hd h ring ((oldDb + k) % queue.sqDepth)
    generalize nvmevProcAdminReq ring d ((oldDb + k) % queue.sqDepth) = x at hok hreply
    obtain ⟨d₁, hk, p, -, hposted, h₁⟩ | habort | ⟨e, hout⟩ := hreply
    · obtain ⟨hle, hall⟩ := ih h₁ hok
      rw [hposted, List.length_append, List.length_singleton] at hle hall
      refine ⟨by omega, fun heq i hi hlt => ?_⟩
      obtain rfl | hne := Nat.eq_or_lt_of_le hi
      · exact hk
      · exact hall (by omega) i (by omega) (by omega)
    · obtain ⟨hle, -⟩ := ih h hok
      exact ⟨by omega, fun heq => by omega⟩
    · cases hok

end Batch

end Admin

/-- The admin queue is set up, with its rings. -/
structure AdminDev.Configured (d : AdminDev) (queue : AdminQueue) (sq : Nat → AdminCommand)
    (cq : Nat → NvmeCompletion) : Prop where
  adminQ : d.adminQ = some queue
  nvmeSq : queue.nvmeSq = some sq
  nvmeCq : queue.nvmeCq = some cq
  cqHead : queue.cqHead < queue.cqDepth

/-- `nvmev_proc_admin_sq` posts one completion for each entry, and they are in the memory of the queue:
the `i`-th has the identifier of the `i`-th entry, is `i` slots after `cq_head`, and has the phase tag of
the queue, flipped with each lap. -/
def AdminDev.CompletedOnce (ring : Nat → Nat → NvmeCompletion) (d : AdminDev) (queue : AdminQueue)
    (sq : Nat → AdminCommand) (cq : Nat → NvmeCompletion) (newDb oldDb : Nat) : Prop :=
  ∃ d' queue' posts, nvmevProcAdminSq ring d newDb oldDb = .ok d' ∧ d'.posted = d.posted ++ posts ∧
    d'.adminQ = some queue' ∧ queue'.nvmeCq = some (Admin.fillAll cq posts) ∧
    List.Forall₂ (fun i p => Admin.IsPost queue i (Admin.submitted queue sq oldDb i) p)
      (List.range (Admin.numSubmitted queue newDb oldDb)) posts

section Configured

variable {d : AdminDev} {queue : AdminQueue} {sq : Nat → AdminCommand} {cq : Nat → NvmeCompletion}

theorem AdminDev.Configured.start (h : d.Configured queue sq cq) : Admin.At queue sq d.ns d.room 0 cq d := by
  refine ⟨?_, rfl, rfl⟩
  rw [Nat.add_zero, Nat.mod_eq_of_lt h.cqHead, lap_of_lt h.cqHead, beq_true, ← h.nvmeSq, ← h.nvmeCq]
  exact h.adminQ

theorem AdminDev.Configured.procAdminSq (h : d.Configured queue sq cq) {newDb oldDb : Nat}
    (hnew : newDb < queue.sqDepth) (hold : oldDb < queue.sqDepth) (ring : Nat → Nat → NvmeCompletion) :
    nvmevProcAdminSq ring d newDb oldDb = procAdminLoop ring queue.sqDepth
      (Admin.numSubmitted queue newDb oldDb) ((oldDb + 0) % queue.sqDepth) d := by
  unfold nvmevProcAdminSq
  rw [h.adminQ]
  dsimp only
  have hnum : (if (newDb : Int) - oldDb < 0 then (newDb : Int) - oldDb + queue.sqDepth
      else (newDb : Int) - oldDb).toNat = Admin.numSubmitted queue newDb oldDb := by
    unfold Admin.numSubmitted
    by_cases hle : oldDb ≤ newDb
    · rw [if_neg (by omega), show newDb + (queue.sqDepth - oldDb) = newDb - oldDb + queue.sqDepth by omega,
        Nat.add_mod_right, Nat.mod_eq_of_lt (by omega)]
      omega
    · rw [if_pos (by omega), Nat.mod_eq_of_lt (by omega)]
      omega
  rw [hnum, Nat.add_zero, Nat.mod_eq_of_lt hold]

end Configured

namespace Admin

/-- An admin queue of two entries each way, for `sq`. -/
def smallQueue (sq : Nat → AdminCommand) : AdminQueue :=
  { phase := true, sqDepth := 2, cqDepth := 2, cqHead := 1, nvmeSq := some sq
    nvmeCq := some clearedQueue }

/-- A device with one namespace, the queue `smallQueue sq` and a page for data at each address. -/
def smallDev (sq : Nat → AdminCommand) : AdminDev :=
  { adminQ := some (smallQueue sq), sqes := fun _ => none, cqes := fun _ => none, dbs := fun _ => 0
    oldDbs := fun _ => 0, nrSq := 0, nrCq := 0, ns := [{ size := 2 ^ 20, ssdType := .conv }], mdts := 5
    room := fun _ => pageSize }

theorem smallDev_configured (sq : Nat → AdminCommand) :
    (smallDev sq).Configured (smallQueue sq) sq clearedQueue := ⟨rfl, rfl, rfl, Nat.one_lt_two⟩

/-- A get log page command for the first `4 * (numdl + 1)` bytes of the SMART log. -/
def smartLogPage (numdl : Nat) : AdminCommand :=
  { opcode := .getLogPage, commandId := 7, prp1 := pageSize, cdw10 := numdl <<< 16 ||| 0x02 }

/-- An abort command. -/
def abort : AdminCommand := { opcode := .abortCmd, commandId := 7 }

end Admin

end Nvmev
