import NvmeVirt.Io.CompletionQueue
import NvmeVirt.Io.Dispatch
import NvmeVirt.Io.Prp
import NvmeVirt.Zns.Ftl

/-!
# Admin commands

The handlers of `admin.c`: each reads its entry of the admin submission queue, changes the device or
writes data for the host, and posts a completion. `pages` lists the data, and `posted` the completions
with their slots. Both only record the run.

A handler takes the address of its data from the command, and `__nvmev_admin_get_log_page` also the
length, without a check. `room` says how much of the memory from an address on is for data, and a write
that goes further, into a queue or the kernel, stops the run.
-/

namespace Nvmev

open CInt Function

/-- `enum nvme_admin_opcode`, as far as `__nvmev_proc_admin_req` tells the opcodes apart. -/
inductive AdminOpcode where
  | deleteSq | createSq | getLogPage | deleteCq | createCq | identify | abortCmd | setFeatures
  | getFeatures | asyncEvent | activateFw | downloadFw | formatNvm | securitySend | securityRecv
  | other (code : Nat)
  deriving DecidableEq, Repr

/-- An entry of the admin submission queue. The structures of the union share the dwords 10 and 11. -/
structure AdminCommand where
  opcode : AdminOpcode
  commandId : Nat
  nsid : Nat := 0
  prp1 : Nat := 0
  cdw10 : Nat := 0
  cdw11 : Nat := 0
  deriving DecidableEq, Repr

namespace AdminCommand

variable (cmd : AdminCommand)

/-- `create_cq.cqid`, `create_sq.sqid` and `delete_queue.qid`. -/
def qid : Nat := u16 cmd.cdw10

/-- `create_cq.qsize` and `create_sq.qsize`. -/
def qsize : Nat := u16 (cmd.cdw10 >>> 16)

/-- `create_sq.cqid`. -/
def cqid : Nat := u16 (cmd.cdw11 >>> 16)

/-- `get_log_page.lid`. -/
def lid : Nat := cmd.cdw10 % 2 ^ 8

/-- The length that `__nvmev_admin_get_log_page` takes from `numdu` and `numdl`. -/
def logLength : Nat := u32 ((u32 ((u16 cmd.cdw11 <<< 16) ||| u16 (cmd.cdw10 >>> 16)) + 1) <<< 2)

/-- `identify.cns`. -/
def cns : Nat := u32 cmd.cdw10

/-- `features.fid`. -/
def fid : Nat := u32 cmd.cdw10

/-- `features.dword11`. -/
def dword11 : Nat := u32 cmd.cdw11

end AdminCommand

/-- `NR_MAX_IO_QUEUE`. -/
def nrMaxIoQueue : Nat := 72

/-- `NS_SSD_TYPE`, with the parameters of the first FTL of a ZNS namespace. -/
inductive SsdType where
  | nvm | conv | kv
  | zns (zp : ZnsParams)

/-- `struct nvmev_ns`: what the handlers read. The command set of a namespace follows from its type. -/
structure NvmevNs where
  size : Nat
  ssdType : SsdType

/-- `ns->csi`, as the `init_namespace` functions set it: `NVME_CSI_NVM`, also for KV, or `NVME_CSI_ZNS`. -/
def NvmevNs.csi (ns : NvmevNs) : Nat :=
  match ns.ssdType with
  | .nvm | .conv | .kv => 0x0
  | .zns _ => 0x2

/-- `struct nvme_lbaf`. -/
structure NvmeLbaf where
  ms : Nat
  ds : Nat
  rp : Nat
  deriving DecidableEq, Repr

/-- `struct nvme_id_ns`: the fields that are not zero. -/
structure NvmeIdNs where
  lbaf : List NvmeLbaf
  flbas : Nat
  nlbaf : Nat
  dps : Nat
  nsze : Nat
  ncap : Nat
  nuse : Nat

/-- `struct nvme_id_ctrl`: the fields that are set. -/
structure NvmeIdCtrl where
  nn : Nat
  oncs : Nat
  acl : Nat
  vwc : Nat
  sn : String
  mn : String
  fr : String
  mdts : Nat
  sqes : Nat
  cqes : Nat

/-- `struct nvme_id_zns_ns`: the fields that are set. -/
structure NvmeIdZnsNs where
  zoc : Nat
  ozcs : Nat
  mar : Nat
  mor : Nat
  numzrwa : Nat
  zrwafg : Nat
  zrwasz : Nat
  zrwacap : Nat
  zsze : Nat
  zdes : Nat

/-- What a handler writes at `prp1`. -/
inductive DataPage where
  /-- `smart_log`, `effects_log` or zeros. -/
  | smartLog (len : Nat)
  | effectsLog (len : Nat)
  | zeros (len : Nat)
  | idNs (ns : NvmeIdNs)
  | idCtrl (ctrl : NvmeIdCtrl)
  | nsList (nsids : List Nat)
  /-- `nidt`, `nidl` and `nid[0]`. -/
  | nsDesc (nidt nidl nid : Nat)
  | idZnsNs (ns : NvmeIdZnsNs)
  | idZnsCtrl (zasl : Nat)

/-- The bytes that are written. Each of the identify structures has the size of a page, two pages are
cleared for the list of namespaces, and of `nvme_id_zns_ctrl` only `zasl` is set. -/
def DataPage.size : DataPage → Nat
  | .smartLog len | .effectsLog len | .zeros len => len
  | .idNs _ | .idCtrl _ | .nsDesc .. | .idZnsNs _ => pageSize
  | .nsList _ => 2 * pageSize
  | .idZnsCtrl _ => 1

/-- `struct nvmev_admin_queue`. A pointer to the pages of a ring can be null. -/
structure AdminQueue where
  phase : Bool
  sqDepth : Nat
  cqDepth : Nat
  cqHead : Nat
  nvmeSq : Option (Nat → AdminCommand)
  nvmeCq : Option (Nat → NvmeCompletion)

/-- `struct nvmev_dev`: what the handlers read and write. -/
structure AdminDev where
  adminQ : Option AdminQueue
  sqes : Nat → Option Io.SubmissionQueue
  cqes : Nat → Option CompletionQueue
  dbs : Nat → Nat
  oldDbs : Nat → Nat
  nrSq : Nat
  nrCq : Nat
  ns : List NvmevNs
  mdts : Nat
  /-- From an address on, the bytes of memory that are there for data. -/
  room : Nat → Nat
  posted : List (Nat × NvmeCompletion) := []
  pages : List (Nat × DataPage) := []

namespace AdminDev

variable (d : AdminDev)

/-- `sq_entry(eid)`. -/
def sqEntry (eid : Nat) : Except Bug AdminCommand :=
  match d.adminQ.bind AdminQueue.nvmeSq with
  | some sq => .ok (sq eid)
  | none => .error (.nullPointer .sqEntry)

/-- The entry that `__make_cq_entry_results` writes. Its fields are 16 bits wide, apart from the results. -/
def resultEntry (queue : AdminQueue) (cmd : AdminCommand) (eid ret result0 result1 : Nat) :
    NvmeCompletion :=
  { commandId := u16 cmd.commandId, sqId := 0, sqHead := u16 eid, result0 := u32 result0
    result1 := u32 result1, status := u16 (queue.phase.toNat ||| u16 ret <<< 1) }

/-- `__make_cq_entry_results`. -/
def makeCqEntryResults (eid ret result0 result1 : Nat) : Except Bug AdminDev := do
  let cmd ← d.sqEntry eid
  match d.adminQ with
  | none => .error (.nullPointer .cqEntry)
  | some queue =>
    match queue.nvmeCq with
    | none => .error (.nullPointer .cqEntry)
    | some cq =>
      let cqe := resultEntry queue cmd eid ret result0 result1
      let cqHead := queue.cqHead + 1
      let wraps := cqHead = queue.cqDepth
      pure { d with
        adminQ := some { queue with
          nvmeCq := some (update cq queue.cqHead cqe)
          phase := if wraps then !queue.phase else queue.phase
          cqHead := if wraps then 0 else cqHead }
        posted := d.posted ++ [(queue.cqHead, cqe)] }

/-- `__make_cq_entry`. -/
def makeCqEntry (eid ret : Nat) : Except Bug AdminDev := d.makeCqEntryResults eid ret 0 0

/-- `nvmev_vdev->ns[nsid]`, of the namespace `cmd->nsid - 1`. -/
def getNs (cmd : AdminCommand) (site : Site) : Except Bug NvmevNs :=
  match d.ns[dec32 (u32 cmd.nsid)]? with
  | some ns => .ok ns
  | none => .error (.outOfBounds site)

/-- The data of a command, at `prp_address(cmd->prp1)`. -/
def writePage (cmd : AdminCommand) (page : DataPage) (site : Site) : Except Bug AdminDev := do
  Outcome.ensure (page.size ≤ d.room cmd.prp1) (.outOfBounds site)
  pure { d with pages := d.pages ++ [(cmd.prp1, page)] }

end AdminDev

/-! ## Queue managements -/

/-- `sqes[qid]` and `cqes[qid]` are arrays of `NR_MAX_IO_QUEUE + 1` pointers. -/
def queueId (cmd : AdminCommand) (site : Site) : Except Bug Nat := do
  Outcome.ensure (cmd.qid ≤ nrMaxIoQueue) (.outOfBounds site)
  pure cmd.qid

/-- `nvmev_vdev->dbs[idx] = nvmev_vdev->old_dbs[idx] = 0`. -/
def AdminDev.resetDbs (d : AdminDev) (idx : Nat) : AdminDev :=
  { d with dbs := update d.dbs idx 0, oldDbs := update d.oldDbs idx 0 }

/-- `__nvmev_admin_create_cq`. `ring` is the memory of the queue. -/
def nvmevAdminCreateCq (ring : Nat → Nat → NvmeCompletion) (d : AdminDev) (eid : Nat) :
    Except Bug AdminDev := do
  let cmd ← d.sqEntry eid
  let qid ← queueId cmd .adminCreateCq
  let d := { d with cqes := update d.cqes qid (some (adminCreateCq cmd.qsize (ring cmd.prp1))) }
  (d.resetDbs (qid * 2 + 1)).makeCqEntry eid Sc.success

/-- `__nvmev_admin_delete_cq`. -/
def nvmevAdminDeleteCq (d : AdminDev) (eid : Nat) : Except Bug AdminDev := do
  let cmd ← d.sqEntry eid
  let qid ← queueId cmd .adminDeleteCq
  { d with cqes := update d.cqes qid none }.makeCqEntry eid Sc.success

/-- `__nvmev_admin_create_sq`. -/
def nvmevAdminCreateSq (d : AdminDev) (eid : Nat) : Except Bug AdminDev := do
  let cmd ← d.sqEntry eid
  let qid ← queueId cmd .adminCreateSq
  let d := { d with sqes := update d.sqes qid (some { cqid := cmd.cqid, queueSize := cmd.qsize + 1 }) }
  (d.resetDbs (qid * 2)).makeCqEntry eid Sc.success

/-- `__nvmev_admin_delete_sq`. -/
def nvmevAdminDeleteSq (d : AdminDev) (eid : Nat) : Except Bug AdminDev := do
  let cmd ← d.sqEntry eid
  let qid ← queueId cmd .adminDeleteSq
  { d with sqes := update d.sqes qid none }.makeCqEntry eid Sc.success

/-! ## Log pages -/

/-- The size of the object that a log page is copied from: `smart_log`, for `NVME_LOG_SMART`, or
`effects_log`, for `NVME_LOG_CMD_EFFECTS`. -/
def logObject : Nat → Option Nat
  | 0x02 => some 512
  | 0x05 => some 4096
  | _ => none

/-- `__nvmev_admin_get_log_page`. The length is not compared with the size of the object. -/
def nvmevAdminGetLogPage (d : AdminDev) (eid : Nat) : Except Bug AdminDev := do
  let cmd ← d.sqEntry eid
  let page : DataPage := match cmd.lid with
    | 0x02 => .smartLog cmd.logLength
    | 0x05 => .effectsLog cmd.logLength
    | _ => .zeros cmd.logLength
  Outcome.ensure (∀ size ∈ logObject cmd.lid, cmd.logLength ≤ size) (.outOfBounds .adminGetLogPage)
  let d ← d.writePage cmd page .adminGetLogPage
  d.makeCqEntry eid Sc.success

/-! ## Identify functions -/

/-- The LBA formats of every namespace, with `NVME_LBAF_RP_GOOD` and `NVME_LBAF_RP_BEST`. -/
def nsLbafs : List NvmeLbaf :=
  [⟨0, 9, 2⟩, ⟨8, 9, 2⟩, ⟨16, 9, 2⟩, ⟨0, 12, 0⟩, ⟨8, 12, 0⟩, ⟨64, 12, 0⟩, ⟨128, 12, 0⟩]

/-- `__nvmev_admin_identify_namespace`. `LBA_BITS` is 9, so the format is the first one. -/
def nvmevAdminIdentifyNamespace (d : AdminDev) (eid : Nat) : Except Bug AdminDev := do
  let cmd ← d.sqEntry eid
  let ns ← d.getNs cmd .identifyNamespace
  let nsze := ns.size >>> lbaBits
  let id : NvmeIdNs :=
    { lbaf := nsLbafs, flbas := 0, nlbaf := 6, dps := 0, nsze, ncap := nsze, nuse := nsze }
  let d ← d.writePage cmd (.idNs id) .identifyNamespace
  d.makeCqEntry eid Sc.success

/-- `__nvmev_admin_identify_namespaces`. -/
def nvmevAdminIdentifyNamespaces (d : AdminDev) (eid : Nat) : Except Bug AdminDev := do
  let cmd ← d.sqEntry eid
  let nsids := ((List.range d.ns.length).map (· + 1)).filter (u32 cmd.nsid < ·)
  let d ← d.writePage cmd (.nsList nsids) .identifyNamespaces
  d.makeCqEntry eid Sc.success

/-- `__nvmev_admin_identify_namespace_desc`, with `NVME_NIDT_CSI`. -/
def nvmevAdminIdentifyNamespaceDesc (d : AdminDev) (eid : Nat) : Except Bug AdminDev := do
  let cmd ← d.sqEntry eid
  let ns ← d.getNs cmd .identifyNamespaceDesc
  let d ← d.writePage cmd (.nsDesc 0x4 1 ns.csi) .identifyNamespaceDesc
  d.makeCqEntry eid Sc.success

/-- The page of `__nvmev_admin_identify_zns_namespace`. -/
def znsIdentity (zp : ZnsParams) : NvmeIdZnsNs :=
  let zrwa := 0 < zp.nrZrwaZones
  { zoc := 0
    ozcs := if zrwa then 1 <<< 1 else 0
    mar := dec32 zp.nrActiveZones
    mor := dec32 zp.nrOpenZones
    numzrwa := if zrwa then dec32 zp.nrZrwaZones else 0
    zrwafg := if zrwa then u16 zp.zrwafgSize else 0
    zrwasz := if zrwa then u16 zp.zrwaSize else 0
    zrwacap := if zrwa then 1 else 0
    zsze := byteToLba zp.zoneSize
    zdes := 0 }

/-- `__nvmev_admin_identify_zns_namespace`. -/
def nvmevAdminIdentifyZnsNamespace (d : AdminDev) (eid : Nat) : Except Bug AdminDev := do
  let cmd ← d.sqEntry eid
  let ns ← d.getNs cmd .identifyZnsNamespace
  match ns.ssdType with
  | .zns zp => do
    nvmevAssert (ns.csi = 0x2) .identifyZnsNamespace
    let d ← d.writePage cmd (.idZnsNs (znsIdentity zp)) .identifyZnsNamespace
    d.makeCqEntry eid Sc.success
  | _ => d.makeCqEntry eid Sc.success

/-- `__nvmev_admin_identify_zns_ctrl`. -/
def nvmevAdminIdentifyZnsCtrl (d : AdminDev) (eid : Nat) : Except Bug AdminDev := do
  let cmd ← d.sqEntry eid
  let d ← d.writePage cmd (.idZnsCtrl 0) .identifyZnsCtrl
  d.makeCqEntry eid Sc.success

/-- `__nvmev_admin_identify_ctrl`. -/
def nvmevAdminIdentifyCtrl (d : AdminDev) (eid : Nat) : Except Bug AdminDev := do
  let cmd ← d.sqEntry eid
  let ctrl : NvmeIdCtrl :=
    { nn := d.ns.length, oncs := 0, acl := 3, vwc := 0, sn := "CSL_Virt_SN_01", mn := "CSL_Virt_MN_01"
      fr := "CSL_002", mdts := d.mdts, sqes := 0x66, cqes := 0x44 }
  let d ← d.writePage cmd (.idCtrl ctrl) .identifyCtrl
  d.makeCqEntry eid Sc.success

/-- `__nvmev_admin_identify`. -/
def nvmevAdminIdentify (d : AdminDev) (eid : Nat) : Except Bug AdminDev := do
  let cmd ← d.sqEntry eid
  match cmd.cns with
  | 0x00 => nvmevAdminIdentifyNamespace d eid
  | 0x01 => nvmevAdminIdentifyCtrl d eid
  | 0x02 => nvmevAdminIdentifyNamespaces d eid
  | 0x03 => nvmevAdminIdentifyNamespaceDesc d eid
  | 0x05 => nvmevAdminIdentifyZnsNamespace d eid
  | 0x06 => nvmevAdminIdentifyZnsCtrl d eid
  | _ => d.makeCqEntry eid Sc.invalidOpcode

/-! ## Set and get features -/

/-- `NVME_FEAT_NUM_QUEUES`, the only feature that the handlers do not ignore. -/
def featNumQueues : Nat := 0x07

/-- The result of `NVME_FEAT_NUM_QUEUES`. -/
def AdminDev.numQueues (d : AdminDev) : Nat := (dec32 d.nrCq <<< 16) ||| dec32 d.nrSq

/-- `__nvmev_admin_set_features`. -/
def nvmevAdminSetFeatures (d : AdminDev) (eid : Nat) : Except Bug AdminDev := do
  let cmd ← d.sqEntry eid
  if cmd.fid = featNumQueues then
    let d := { d with
      nrSq := min (u16 cmd.dword11 + 1) nrMaxIoQueue
      nrCq := min (u16 (cmd.dword11 >>> 16) + 1) nrMaxIoQueue }
    d.makeCqEntryResults eid Sc.success d.numQueues 0
  else d.makeCqEntryResults eid Sc.success 0 0

/-- `__nvmev_admin_get_features`. -/
def nvmevAdminGetFeatures (d : AdminDev) (eid : Nat) : Except Bug AdminDev := do
  let cmd ← d.sqEntry eid
  d.makeCqEntryResults eid Sc.success (if cmd.fid = featNumQueues then d.numQueues else 0) 0

/-- `__nvmev_admin_async_event`. -/
def nvmevAdminAsyncEvent (d : AdminDev) (eid : Nat) : Except Bug AdminDev := d.makeCqEntry eid Sc.success

/-! ## The queue -/

/-- `__nvmev_proc_admin_req`. -/
def nvmevProcAdminReq (ring : Nat → Nat → NvmeCompletion) (d : AdminDev) (entryId : Nat) :
    Except Bug AdminDev := do
  let sqe ← d.sqEntry entryId
  match sqe.opcode with
  | .deleteSq => nvmevAdminDeleteSq d entryId
  | .createSq => nvmevAdminCreateSq d entryId
  | .getLogPage => nvmevAdminGetLogPage d entryId
  | .deleteCq => nvmevAdminDeleteCq d entryId
  | .createCq => nvmevAdminCreateCq ring d entryId
  | .identify => nvmevAdminIdentify d entryId
  | .abortCmd => pure d
  | .setFeatures => nvmevAdminSetFeatures d entryId
  | .getFeatures => nvmevAdminGetFeatures d entryId
  | .asyncEvent => nvmevAdminAsyncEvent d entryId
  | .activateFw | .downloadFw | .formatNvm | .securitySend | .securityRecv | .other _ =>
    d.makeCqEntry entryId Sc.invalidOpcode

/-- The loop of `nvmev_proc_admin_sq`. -/
def procAdminLoop (ring : Nat → Nat → NvmeCompletion) (sqDepth : Nat) :
    Nat → Nat → AdminDev → Except Bug AdminDev
  | 0, _, d => .ok d
  | numProc + 1, curr, d => do
    let d ← nvmevProcAdminReq ring d curr
    procAdminLoop ring sqDepth numProc (if curr + 1 = sqDepth then 0 else curr + 1) d

/-- `nvmev_proc_admin_sq`, without the interrupt. The loop does not run if `num_proc` is negative. -/
def nvmevProcAdminSq (ring : Nat → Nat → NvmeCompletion) (d : AdminDev) (newDb oldDb : Nat) :
    Except Bug AdminDev := do
  match d.adminQ with
  | none => .error (.nullPointer .sqEntry)
  | some queue =>
    let numProc : Int := newDb - oldDb
    let numProc := if numProc < 0 then numProc + queue.sqDepth else numProc
    procAdminLoop ring queue.sqDepth numProc.toNat oldDb d

end Nvmev
