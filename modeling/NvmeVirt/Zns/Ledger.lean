import NvmeVirt.Zns.WriteBuffer

/-!
# The bytes of the write buffer of a zone

Along a run of commands and completions of internal operations, in any order, the bytes of the write
buffer of a zone are in three places: left in the buffer, in the internal operations that are not
completed, and in the one-shot page of the zone that is not complete. `ledger` is their sum.

* `ZoneEffect`: what a command can do to a zone and to its write buffer.
-/

namespace Nvmev

open CInt Function Tally Outcome Groups

namespace Zns

variable {τ : Type} {sp : SsdParams} {zp : ZnsParams} {z z' : ZnsFtl τ} {zid i : Nat}

/-! ## Internal operations -/

/-- The internal operations that release to the write buffer of zone `i`. -/
def opsOf (i : Nat) (ops : List InternalOp) : List InternalOp :=
  ops.filter fun op => op.writeBuffer = .zoneWriteBuffer i

/-- The bytes that they release. -/
def bytesOf (i : Nat) (ops : List InternalOp) : Nat := ((opsOf i ops).map (·.buffsToRelease)).sum

@[simp] theorem opsOf_append (i : Nat) (ops ops' : List InternalOp) :
    opsOf i (ops ++ ops') = opsOf i ops ++ opsOf i ops' := List.filter_append ..

@[simp] theorem bytesOf_append (i : Nat) (ops ops' : List InternalOp) :
    bytesOf i (ops ++ ops') = bytesOf i ops + bytesOf i ops' := by simp [bytesOf]

theorem opsOf_eq_nil {ops : List InternalOp} (h : ∀ op ∈ ops, op.writeBuffer ≠ .zoneWriteBuffer i) :
    opsOf i ops = [] := by
  simpa [opsOf, List.filter_eq_nil_iff] using h

/-- Operations that all release to the buffer of zone `zid`. -/
theorem opsOf_zone {ops : List InternalOp} {turns : List (Nat × Nat)}
    (h : ops.map (fun op => (op.writeBuffer, op.buffsToRelease)) =
      turns.map fun turn => (.zoneWriteBuffer zid, turn.2)) :
    (opsOf zid ops).map (·.buffsToRelease) = turns.map Prod.snd ∧ ∀ i ≠ zid, opsOf i ops = [] := by
  have hmem : ∀ op ∈ ops, op.writeBuffer = .zoneWriteBuffer zid := by
    intro op hop
    have hpair : (op.writeBuffer, op.buffsToRelease) ∈
        ops.map fun op => (op.writeBuffer, op.buffsToRelease) := List.mem_map_of_mem hop
    rw [h, List.mem_map] at hpair
    obtain ⟨turn, -, he⟩ := hpair
    exact (Prod.mk.inj he).1.symm
  constructor
  · have hall : opsOf zid ops = ops := List.filter_eq_self.mpr fun op hop => by simp [hmem op hop]
    have hsnd := congrArg (List.map Prod.snd) h
    rw [List.map_map, List.map_map] at hsnd
    rw [hall]
    exact hsnd
  · intro i hne
    refine opsOf_eq_nil fun op hop he => hne ?_
    rw [hmem op hop] at he
    exact (BufferRef.zoneWriteBuffer.inj he).symm

/-- A completed operation gives its bytes back. -/
theorem bytesOf_eraseIdx {ops : List InternalOp} {k : Nat} {op : InternalOp} (h : ops[k]? = some op) :
    bytesOf i ops = bytesOf i (ops.eraseIdx k) +
      if op.writeBuffer = .zoneWriteBuffer i then op.buffsToRelease else 0 := by
  induction ops generalizing k with
  | nil => cases h
  | cons op' ops ih =>
    cases k with
    | zero =>
      cases h
      by_cases hop : op.writeBuffer = .zoneWriteBuffer i <;> simp [bytesOf, opsOf, hop, Nat.add_comm]
    | succ k =>
      have ih := ih h
      unfold bytesOf opsOf at ih ⊢
      by_cases hop : op'.writeBuffer = .zoneWriteBuffer i
      · simp only [List.eraseIdx_cons_succ, List.filter_cons, hop, decide_true, if_true, List.map_cons,
          List.sum_cons]
        omega
      · simp only [List.eraseIdx_cons_succ, List.filter_cons, hop, decide_false]
        exact ih

theorem zrwaLoop_ops (B : PerfModel τ) (sqId stime zid : Nat) (fuel lpn remaining : Nat)
    (s : FlushState τ) (hs : ∀ op ∈ s.ops, op.writeBuffer = .zrwaBuffer zid) :
    ∀ op ∈ (zrwaLoop z B sqId stime zid fuel lpn remaining s).ops, op.writeBuffer = .zrwaBuffer zid := by
  induction fuel generalizing lpn remaining s with
  | zero => exact hs
  | succ fuel ih =>
    unfold zrwaLoop
    split
    · refine ih _ _ _ ?_
      split
      · intro op hop
        simp only [flushOneshot, List.mem_append, List.mem_singleton] at hop
        obtain hop | rfl := hop
        · exact hs op hop
        · rfl
      · exact hs
    · exact hs

/-- A write to a zone with a random write area releases to its ZRWA buffer. -/
theorem znsWriteZrwa_ops (B : PerfModel τ) {req : RwRequest} :
    Partial (znsWriteZrwa B z req) fun o => opsOf i o.ops = [] := by
  unfold Nvmev.znsWriteZrwa
  simp only []
  refine Partial.bind (Q := fun _ => True) (fun _ _ => trivial) fun r _ => ?_
  split
  · exact .ret rfl
  refine Partial.bind (Q := fun _ => True) (fun _ _ => trivial) fun flush _ => ?_
  refine Partial.bind (Q := fun _ => True) (fun _ _ => trivial) fun r _ => ?_
  obtain ⟨refused, z₂⟩ := r
  dsimp only
  split
  · exact .ret rfl
  · refine .ret (opsOf_eq_nil fun op hop he => ?_)
    have href := zrwaLoop_ops B _ _ _ _ _ _ _ (fun op hop => by cases hop) op hop
    rw [href] at he
    cases he

/-! ## What a command does to a zone -/

/-- The command is a write or zone append to the plain zone `i`. -/
structure PlainWriteTo (z : ZnsFtl τ) (req : RwRequest) (i : Nat) : Prop where
  opcode : req.cmd.opcode = .write ∨ req.cmd.opcode = .zoneAppend
  zone : lbaToZone z req.cmd.slba = i
  plain : (z.zoneDescs i).zrwav = false

instance (z : ZnsFtl τ) (req : RwRequest) (i : Nat) : Decidable (PlainWriteTo z req i) :=
  decidable_of_iff ((req.cmd.opcode = .write ∨ req.cmd.opcode = .zoneAppend) ∧
      lbaToZone z req.cmd.slba = i ∧ (z.zoneDescs i).zrwav = false)
    ⟨fun h => ⟨h.1, h.2.1, h.2.2⟩, fun h => ⟨h.opcode, h.zone, h.plain⟩⟩

/-- Blocks from the start of zone `i` to its write pointer. -/
def offset (z : ZnsFtl τ) (i : Nat) : Nat := (z.zoneDescs i).wp - (z.zoneDescs i).zslba

/-- What a command can do to zone `i` and to its write buffer. -/
inductive ZoneEffect (i : Nat) (z : ZnsFtl τ) : ZnsRequest → ZnsFtl τ → List InternalOp → Prop where
  | kept {req : ZnsRequest} {z' : ZnsFtl τ} {ops : List InternalOp} (resets : ¬ resetsZone z req i)
    (room : ∀ rw, req = .rw rw → PlainWriteTo z rw i →
      (z.zoneWriteBuffer i).remaining < rw.cmd.nrLbas * 512)
    (keeps : Keeps z z' i) (wb : z'.zoneWriteBuffer i = z.zoneWriteBuffer i) (ops_eq : opsOf i ops = []) :
    ZoneEffect i z req z' ops
  | gotZrwa {req : ZnsRequest} {z' : ZnsFtl τ} {ops : List InternalOp} (resets : ¬ resetsZone z req i)
    (empty : (z.zoneDescs i).state = .empty) (zrwav : (z'.zoneDescs i).zrwav = true)
    (wb : z'.zoneWriteBuffer i = z.zoneWriteBuffer i) (ops_eq : opsOf i ops = []) :
    ZoneEffect i z req z' ops
  | reset {req : ZnsRequest} {z' : ZnsFtl τ} {ops : List InternalOp} (resets : resetsZone z req i)
    (cleared : Cleared z' i) (wb : z'.zoneWriteBuffer i = z.zoneWriteBuffer i)
    (ops_eq : opsOf i ops = []) : ZoneEffect i z req z' ops
  | failed {req : RwRequest} {z' : ZnsFtl τ} {ops : List InternalOp} (write : PlainWriteTo z req i)
    (room : req.cmd.nrLbas * 512 ≤ (z.zoneWriteBuffer i).remaining) (fails : ¬ Sequential z req i)
    (desc : z'.zoneDescs i = z.zoneDescs i)
    (wb : z'.zoneWriteBuffer i = { z.zoneWriteBuffer i with
      remaining := (z.zoneWriteBuffer i).remaining - req.cmd.nrLbas * 512 })
    (ops_eq : opsOf i ops = []) : ZoneEffect i z (.rw req) z' ops
  | done {req : RwRequest} {z' : ZnsFtl τ} {ops : List InternalOp} (write : PlainWriteTo z req i)
    (room : req.cmd.nrLbas * 512 ≤ (z.zoneWriteBuffer i).remaining) (passes : Sequential z req i)
    (plain : (z'.zoneDescs i).zrwav = false)
    (wp : (z'.zoneDescs i).wp = (z.zoneDescs i).wp + req.cmd.nrLbas)
    (le : (z.zoneDescs i).wp + req.cmd.nrLbas ≤ (z.zoneDescs i).zslba + z.zp.zoneSize / 512)
    (wb : z'.zoneWriteBuffer i = { z.zoneWriteBuffer i with
      remaining := (z.zoneWriteBuffer i).remaining - req.cmd.nrLbas * 512 })
    (bytes : (opsOf i ops).map (·.buffsToRelease) =
      (writeTurns z i (z.zoneDescs i).wp req.cmd.nrLbas).map Prod.snd) : ZoneEffect i z (.rw req) z' ops

theorem allocated_zoneWriteBuffer (bytes : Nat) :
    (allocated z (.zoneWriteBuffer zid) bytes).zoneWriteBuffer i =
      if i = zid then { z.zoneWriteBuffer i with remaining := (z.zoneWriteBuffer i).remaining - bytes }
      else z.zoneWriteBuffer i := by
  by_cases hi : i = zid
  · subst hi
    simp [allocated, ZnsFtl.setBuffer, ZnsFtl.buffer]
  · simp [allocated, ZnsFtl.setBuffer, hi]

section Effect

variable (hb : Buffered sp zp) (h : Live sp zp z) (hi : Low zp i) (B : PerfModel τ)

include hb h hi

theorem Live.znsWritePlain_zoneEffect {req : RwRequest}
    (hop : req.cmd.opcode = .write ∨ req.cmd.opcode = .zoneAppend)
    (hzn : lbaToZone z req.cmd.slba < zp.nrZones)
    (hv : (z.zoneDescs (lbaToZone z req.cmd.slba)).zrwav = false) :
    Partial (znsWritePlain B z req) fun o => ZoneEffect i z (.rw req) o.ftl o.ops := by
  intro o ho
  by_cases hiz : i = lbaToZone z req.cmd.slba
  · rw [← hiz] at hzn hv
    have hwrite : PlainWriteTo z req i := ⟨hop, hiz.symm, hv⟩
    cases h.plainWrite_buffer hb B hiz.symm hzn o ho with
    | refused hroom hftl hops =>
      exact .kept id (fun rw he _ => by cases he; exact hroom) (.of_eq (by rw [hftl])) (by rw [hftl])
        (by rw [hops]; rfl)
    | failed hroom hfails _ hds hwb hops =>
      refine .failed hwrite hroom hfails (by rw [hds]) ?_ (by rw [hops]; rfl)
      rw [hwb, allocated_zoneWriteBuffer, if_pos rfl]
    | done st hroom hpass hd hwb hops =>
      obtain ⟨hrange, hwp, -⟩ := h.plainDone_range hb.wide hi hv hd
      have hdesc := congrFun hd.descs i
      rw [update_self] at hdesc
      refine .done hwrite hroom hpass ?_ ?_ (by rw [h.placed.zp_eq]; exact hrange) ?_ (opsOf_zone hops).1
      · rw [hdesc]
        exact hv
      · rw [hdesc]
        exact hwp
      · rw [hwb, allocated_zoneWriteBuffer, if_pos rfl]
  · have hother (rw : RwRequest) (he : ZnsRequest.rw req = .rw rw) (hwrite : PlainWriteTo z rw i) :
        (z.zoneWriteBuffer i).remaining < rw.cmd.nrLbas * 512 := by
      cases he
      exact absurd hwrite.zone.symm hiz
    cases h.plainWrite_buffer hb B rfl hzn o ho with
    | refused _ hftl hops =>
      exact .kept id hother (.of_eq (by rw [hftl])) (by rw [hftl]) (by rw [hops]; rfl)
    | failed _ _ _ hds hwb hops =>
      refine .kept id hother (.of_eq (by rw [hds])) ?_ (by rw [hops]; rfl)
      rw [hwb, allocated_zoneWriteBuffer, if_neg hiz]
    | done st _ _ hd hwb hops =>
      refine .kept id hother (.of_eq (by rw [hd.descs, update_of_ne hiz])) ?_ ((opsOf_zone hops).2 i hiz)
      rw [hwb, allocated_zoneWriteBuffer, if_neg hiz]

theorem Live.znsWrite_zoneEffect {req : RwRequest}
    (hop : req.cmd.opcode = .write ∨ req.cmd.opcode = .zoneAppend) (hin : InNs zp req.cmd.slba) :
    Partial (znsWrite B z req) fun o => ZoneEffect i z (.rw req) o.ftl o.ops := by
  unfold Nvmev.znsWrite
  rw [h.placed.lpnToZone_eq hb.wide]
  split
  · rename_i hv
    exact h.znsWritePlain_zoneEffect hb hi B hop (h.placed.zone_of_inNs hb.wide hin).2.1 hv
  · rename_i hv
    have hv : (z.zoneDescs (lbaToZone z req.cmd.slba)).zrwav = true := by simpa using hv
    intro o ho
    have hs := h.placed.znsWriteZrwa hb.wide h.counters B hin hv o ho
    refine .kept id (fun rw he hwrite => ?_) (znsWriteZrwa_keeps B hv o ho i) (by rw [hs.wb_eq])
      (znsWriteZrwa_ops B o ho)
    cases he
    rw [hwrite.zone, hwrite.plain] at hv
    cases hv

/-- What a command does to zone `i`. -/
theorem Live.command_zoneEffect {req : ZnsRequest} (hon : OnZones zp req) :
    Partial (znsProcScheduled B z req) fun r => Live sp zp r.1 ∧ ZoneEffect i z req r.1 r.2 := by
  rintro ⟨z', ops⟩ hr
  have hproc := znsProcScheduled_ok hr
  cases req with
  | rw req =>
    refine ⟨(h.rw_effect hb.wide B hon z' hproc).live, ?_⟩
    have hquiet (hop : ¬ (req.cmd.opcode = .write ∨ req.cmd.opcode = .zoneAppend)) (perf : τ) :
        ZoneEffect i z (.rw req) (z.setPerf perf) [] :=
      .kept id (fun rw he hwrite => by cases he; exact absurd hwrite.opcode hop) (.of_eq rfl) rfl rfl
    unfold znsProcScheduled at hr
    dsimp only at hr
    split at hr
    · rename_i hop
      obtain ⟨o, ho, hr⟩ := bind_ok.mp hr
      cases hr
      exact h.znsWrite_zoneEffect hb hi B (.inl hop) hon o ho
    · rename_i hop
      obtain ⟨o, ho, hr⟩ := bind_ok.mp hr
      cases hr
      exact h.znsWrite_zoneEffect hb hi B (.inr hop) hon o ho
    · rename_i hop
      cases hr
      exact hquiet (by simp [hop]) _
    · rename_i hop
      cases hr
      exact hquiet (by simp [hop]) _
    · rename_i hnw hna _ _
      cases hr
      exact hquiet (by simp_all) z.ssd.perf
  | zoneMgmtSend cmd nsecsStart junk =>
    obtain ⟨r, hsend, he⟩ := bind_ok.mp hr
    cases he
    obtain ⟨hlive, hzone⟩ := h.znsZmgmtSend_zone hb.wide hon r hsend
    refine ⟨hlive, ?_⟩
    have hs : Steps zrwaAdvance True z r.2 := h.placed.znsZmgmtSend hb.wide h.counters hon r hsend
    have hwb : r.2.zoneWriteBuffer i = z.zoneWriteBuffer i := by rw [hs.wb_eq]
    by_cases hreset : resetsZone z (.zoneMgmtSend cmd nsecsStart junk) i
    · exact .reset hreset ((hzone i hi).1 hreset) hwb rfl
    · obtain hk | ⟨-, hemp, hv⟩ := (hzone i hi).2 hreset
      · exact .kept hreset (fun _ he => by cases he) hk hwb rfl
      · exact .gotZrwa hreset hemp hv hwb rfl

end Effect

/-! ## The ledger -/

/-- Bytes of zone `i` that its one-shot page holds which is not complete. -/
def openBytes (sp : SsdParams) (zp : ZnsParams) (z : ZnsFtl τ) (i : Nat) : Nat :=
  if (z.zoneDescs i).zrwav = true then 0 else offset z i * 512 - programmedBytes sp zp (offset z i)

/-- The bytes of the write buffer of zone `i`: left, in operations that are not completed, and in the
one-shot page that is not complete. -/
def ledger (sp : SsdParams) (zp : ZnsParams) (i : Nat) (s : ZnsDevice τ) : Nat :=
  (s.ftl.zoneWriteBuffer i).remaining + bytesOf i s.pending + openBytes sp zp s.ftl i

/-- The event is not a write that succeeds on zone `i` and ends inside the last page of a one-shot
page. Such a write programs the one-shot page, and so does the write that follows it. -/
def KeepsPages (sp : SsdParams) (zp : ZnsParams) (i : Nat) (s : ZnsDevice τ) : ZnsEvent → Prop
  | .command (.rw req) => PlainWriteTo s.ftl req i → Sequential s.ftl req i →
      req.cmd.nrLbas * 512 ≤ (s.ftl.zoneWriteBuffer i).remaining →
      ¬ InLastPage sp zp (offset s.ftl i + req.cmd.nrLbas)
  | _ => True

/-- The event takes no bytes that stay taken: it is not a write to zone `i` that fails, nor a reset of
zone `i` with its last one-shot page incomplete. -/
def KeepsBytes (sp : SsdParams) (zp : ZnsParams) (i : Nat) (s : ZnsDevice τ) : ZnsEvent → Prop
  | .command (.rw req) => PlainWriteTo s.ftl req i →
      req.cmd.nrLbas * 512 ≤ (s.ftl.zoneWriteBuffer i).remaining → Sequential s.ftl req i
  | .command (.zoneMgmtSend cmd nsecsStart junk) =>
      resetsZone s.ftl (.zoneMgmtSend cmd nsecsStart junk) i → (s.ftl.zoneDescs i).zrwav = true ∨
        offset s.ftl i % (8 * sp.pgsPerOneshotpg) = 0 ∨ offset s.ftl i = zp.zoneSize / 512
  | .complete _ => True

instance (s : ZnsDevice τ) : DecidablePred (KeepsPages sp zp i s)
  | .command (.rw _) => by unfold KeepsPages; infer_instance
  | .command (.zoneMgmtSend _ _ _) => .isTrue trivial
  | .complete _ => .isTrue trivial

instance (s : ZnsDevice τ) : DecidablePred (KeepsBytes sp zp i s)
  | .command (.rw _) => by unfold KeepsBytes; infer_instance
  | .command (.zoneMgmtSend _ _ _) => by unfold KeepsBytes; infer_instance
  | .complete _ => .isTrue trivial

/-- The write buffer of zone `i` gives no more than it has. -/
structure LedgerInv (sp : SsdParams) (zp : ZnsParams) (i : Nat) (s : ZnsDevice τ) : Prop where
  live : Live sp zp s.ftl
  size : (s.ftl.zoneWriteBuffer i).size = zp.zoneWbSize
  le : ledger sp zp i s ≤ zp.zoneWbSize
  within : (s.ftl.zoneDescs i).zrwav = false → offset s.ftl i ≤ zp.zoneSize / 512

/-- Pages in a one-shot page: not 0, and no more than the page field of a physical address can say. -/
structure OneshotFits (sp : SsdParams) : Prop where
  pos : 0 < sp.pgsPerOneshotpg
  le : sp.pgsPerOneshotpg ≤ 2 ^ 16

/-- No bytes are held at the end of a one-shot page. -/
theorem programmedBytes_eq (hw : Wide sp zp) (hpos : 0 < sp.pgsPerOneshotpg) {b : Nat}
    (hle : b ≤ zp.zoneSize / 512) (hend : b % (8 * sp.pgsPerOneshotpg) = 0 ∨ b = zp.zoneSize / 512) :
    programmedBytes sp zp b = b * 512 := by
  obtain ⟨-, hlbas, -⟩ := zonePages_eq hw
  rw [hlbas] at hle hend
  unfold programmedBytes
  obtain hlt | rfl := Nat.lt_or_eq_of_le hle
  · have hend := hend.resolve_right (by omega)
    obtain ⟨k, rfl⟩ := Nat.dvd_of_mod_eq_zero hend
    rw [Nat.mul_assoc, Nat.mul_div_cancel_left _ (by decide)] at *
    rw [held_of_dvd (by omega) (Nat.mul_mod_right _ _)]
    omega
  · rw [Nat.mul_div_cancel _ (by decide), held_self hpos]
    omega

theorem openBytes_of_zrwav (hv : (z.zoneDescs i).zrwav = true) : openBytes sp zp z i = 0 := if_pos hv

theorem openBytes_of_plain (hv : (z.zoneDescs i).zrwav = false) :
    openBytes sp zp z i = offset z i * 512 - programmedBytes sp zp (offset z i) :=
  if_neg (by rw [hv]; decide)

/-- A zone at the end of a one-shot page, or with a random write area. -/
theorem openBytes_eq_zero (hw : Wide sp zp) (hpos : 0 < sp.pgsPerOneshotpg)
    (hle : (z.zoneDescs i).zrwav = false → offset z i ≤ zp.zoneSize / 512)
    (hend : (z.zoneDescs i).zrwav = true ∨ offset z i % (8 * sp.pgsPerOneshotpg) = 0 ∨
      offset z i = zp.zoneSize / 512) : openBytes sp zp z i = 0 := by
  by_cases hv : (z.zoneDescs i).zrwav = true
  · exact openBytes_of_zrwav hv
  have hv' : (z.zoneDescs i).zrwav = false := by simpa using hv
  rw [openBytes_of_plain hv', programmedBytes_eq hw hpos (hle hv') (hend.resolve_left hv), Nat.sub_self]

/-- What a command does to the bytes: it loses some, or none if `KeepsBytes`. -/
structure Balance (sp : SsdParams) (zp : ZnsParams) (i : Nat) (s s' : ZnsDevice τ) (event : ZnsEvent) :
    Prop where
  le : ledger sp zp i s' ≤ ledger sp zp i s
  eq : KeepsBytes sp zp i s event → ledger sp zp i s' = ledger sp zp i s
  size : (s'.ftl.zoneWriteBuffer i).size = (s.ftl.zoneWriteBuffer i).size
  within : (s'.ftl.zoneDescs i).zrwav = false → offset s'.ftl i ≤ zp.zoneSize / 512

/-- Where nothing is lost. -/
theorem Balance.of_eq {s s' : ZnsDevice τ} {event : ZnsEvent}
    (h : ledger sp zp i s' = ledger sp zp i s)
    (hsize : (s'.ftl.zoneWriteBuffer i).size = (s.ftl.zoneWriteBuffer i).size)
    (hwithin : (s'.ftl.zoneDescs i).zrwav = false → offset s'.ftl i ≤ zp.zoneSize / 512) :
    Balance sp zp i s s' event := ⟨Nat.le_of_eq h, fun _ => h, hsize, hwithin⟩

/-- A write pointer at the start of the zone. -/
theorem offset_eq_zero (h : (z.zoneDescs i).wp = (z.zoneDescs i).zslba) : offset z i = 0 := by
  unfold offset
  rw [h, Nat.sub_self]

section Effect

variable (hb : Buffered sp zp) (hone : OneshotFits sp) (hi : Low zp i) (hp : Placed sp zp z)
  (hp' : Placed sp zp z')

include hi hp hp' in
theorem zslba_eq : (z'.zoneDescs i).zslba = (z.zoneDescs i).zslba := by
  rw [(hp.zone i hi.lt).1.1, (hp'.zone i hi.lt).1.1]

include hi hp hp' in
/-- A write pointer that stays. -/
theorem offset_congr (hwp : (z'.zoneDescs i).wp = (z.zoneDescs i).wp) : offset z' i = offset z i := by
  unfold offset
  rw [zslba_eq hi hp hp', hwp]

include hb hi hp hp'

/-- The write pointer before and after a write of `n` blocks, from the start of the zone. -/
theorem offset_write {n : Nat} (hlo : (z.zoneDescs i).zslba ≤ (z.zoneDescs i).wp)
    (hwp : (z'.zoneDescs i).wp = (z.zoneDescs i).wp + n)
    (hle : (z.zoneDescs i).wp + n ≤ (z.zoneDescs i).zslba + z.zp.zoneSize / 512) :
    offset z' i = offset z i + n ∧ offset z i + n ≤ zonePages zp * 8 ∧
      (z.zoneDescs i).wp = i * (zp.zoneSize / 512) + offset z i := by
  rw [hp.zp_eq] at hle
  rw [← (hp.zone i hi.lt).1.1, ← (zonePages_eq hb.wide).2.1]
  unfold offset
  rw [zslba_eq hi hp hp', hwp]
  omega

include hone

theorem ZoneEffect.balance {req : ZnsRequest} {ops pending : List InternalOp}
    (he : ZoneEffect i z req z' ops)
    (hlo : (z.zoneDescs i).zrwav = false → (z.zoneDescs i).zslba ≤ (z.zoneDescs i).wp)
    (hwithin : (z.zoneDescs i).zrwav = false → offset z i ≤ zp.zoneSize / 512)
    (hpages : KeepsPages sp zp i { ftl := z, pending } (.command req)) :
    Balance sp zp i { ftl := z, pending } { ftl := z', pending := pending ++ ops } (.command req) := by
  have hnone (hops : opsOf i ops = []) : bytesOf i (pending ++ ops) = bytesOf i pending := by
    rw [bytesOf_append, bytesOf, bytesOf, hops]
    rfl
  cases he with
  | kept _ _ hk hwb hops =>
    have hoff (hv : (z'.zoneDescs i).zrwav = false) : offset z' i = offset z i :=
      offset_congr hi hp hp' (hk.wp (hk.zrwav.symm.trans hv))
    refine .of_eq ?_ (by rw [hwb]) fun hv => ?_
    · unfold ledger
      dsimp only
      rw [hwb, hnone hops]
      congr 1
      unfold openBytes
      rw [hk.zrwav]
      split
      · rfl
      · rename_i hv
        rw [hoff (by rw [hk.zrwav]; simpa using hv)]
    · dsimp only
      rw [hoff hv]
      exact hwithin (hk.zrwav.symm.trans hv)
  | gotZrwa _ hemp hv hwb hops =>
    have hoff : offset z i = 0 := offset_eq_zero ((hp.zone i hi.lt).2.1 hemp)
    refine .of_eq ?_ (by rw [hwb]) fun hv' => ?_
    · unfold ledger
      dsimp only
      rw [hwb, hnone hops, openBytes_of_zrwav hv, openBytes_eq_zero hb.wide hone.pos hwithin
        (.inr (.inl (by rw [hoff, Nat.zero_mod])))]
    · dsimp only at hv'
      rw [hv] at hv'
      cases hv'
  | reset hreset hclear hwb hops =>
    have hoff : offset z' i = 0 := offset_eq_zero hclear.2
    have hle (_ : (z'.zoneDescs i).zrwav = false) : offset z' i ≤ zp.zoneSize / 512 := by
      rw [hoff]
      exact Nat.zero_le _
    have hzero : openBytes sp zp z' i = 0 := openBytes_eq_zero hb.wide hone.pos hle
      (.inr (.inl (by rw [hoff, Nat.zero_mod])))
    refine ⟨?_, fun hkeep => ?_, by rw [hwb], hle⟩
    · unfold ledger
      dsimp only
      rw [hwb, hnone hops, hzero]
      exact Nat.le_add_right _ _
    · cases req with
      | rw req => exact absurd hreset id
      | zoneMgmtSend cmd nsecsStart junk =>
        unfold ledger
        dsimp only
        rw [hwb, hnone hops, hzero, openBytes_eq_zero hb.wide hone.pos hwithin (hkeep hreset)]
  | @failed req _ _ hwrite hroom hfails hdesc hwb hops =>
    refine ⟨?_, fun hkeep => absurd (hkeep hwrite hroom) hfails, by rw [hwb], fun hv => ?_⟩
    · unfold ledger openBytes offset
      dsimp only
      rw [hwb, hnone hops, hdesc]
      dsimp only
      omega
    · unfold offset at hwithin ⊢
      dsimp only at hv ⊢
      rw [hdesc] at hv ⊢
      exact hwithin hv
  | @done req _ _ hwrite hroom hpass hv hwp hle hwb hbytes =>
    obtain ⟨hoff, hend, hstart⟩ := offset_write hb hi hp hp' (hlo hwrite.plain) hwp hle
    obtain ⟨-, hsum, -⟩ := writeTurns_spec hb.wide hp.toParams hi hone.le hone.pos (nrLbas_pos req.cmd)
      hstart hend (hpages hwrite hpass hroom)
    rw [← hbytes] at hsum
    have hbefore : programmedBytes sp zp (offset z i) ≤ offset z i * 512 :=
      programmedBytes_le hone.pos (by omega)
    have hafter := programmedBytes_le hone.pos hend
    have hlbas := (zonePages_eq hb.wide).2.1
    refine .of_eq ?_ (by rw [hwb]) fun _ => by dsimp only; omega
    unfold ledger
    dsimp only
    rw [hwb, openBytes_of_plain hv, openBytes_of_plain hwrite.plain, hoff, bytesOf_append]
    change _ + (_ + ((opsOf i ops).map (·.buffsToRelease)).sum) + _ = _
    dsimp only
    omega

end Effect

/-! ## Events -/

section Event

variable (hb : Buffered sp zp) (hone : OneshotFits sp) (hi : Low zp i) {s : ZnsDevice τ}
  (h : LedgerInv sp zp i s)

theorem releaseInternal_zoneWriteBuffer (op : InternalOp) :
    (releaseInternal z op).zoneWriteBuffer i = if op.writeBuffer = .zoneWriteBuffer i then
      bufferRelease (z.zoneWriteBuffer i) op.buffsToRelease else z.zoneWriteBuffer i := by
  unfold releaseInternal
  cases href : op.writeBuffer with
  | zoneWriteBuffer zid =>
    by_cases hi : i = zid
    · subst hi
      simp [ZnsFtl.setBuffer, ZnsFtl.buffer]
    · simp [ZnsFtl.setBuffer, ZnsFtl.buffer, hi, Ne.symm hi]
  | _ => rfl

include hb h

/-- A completed operation moves its bytes into the buffer. -/
theorem LedgerInv.complete (B : PerfModel τ) (k : Nat) :
    Partial (s.step B (.complete k)) fun s' => LedgerInv sp zp i s' ∧
      ledger sp zp i s' = ledger sp zp i s ∧ s'.ftl.zoneDescs = s.ftl.zoneDescs := by
  intro s' hs'
  unfold ZnsDevice.step at hs'
  dsimp only at hs'
  split at hs'
  · rename_i op hop
    cases hs'
    have hle := h.le
    have hlt := hb.wbLt
    have hdescs : (releaseInternal s.ftl op).zoneDescs = s.ftl.zoneDescs := by simp
    have hlive : Live sp zp (releaseInternal s.ftl op) :=
      h.live.same (by simp) (by simp) hdescs (by simp)
    have hledger : ledger sp zp i { ftl := releaseInternal s.ftl op, pending := s.pending.eraseIdx k } =
        ledger sp zp i s := by
      have hbytes := bytesOf_eraseIdx (i := i) hop
      unfold ledger openBytes offset at hle ⊢
      dsimp only
      rw [hdescs, releaseInternal_zoneWriteBuffer]
      split <;> rename_i href
      · rw [if_pos href] at hbytes
        unfold bufferRelease
        dsimp only
        rw [u64_of_lt (by omega)]
        omega
      · rw [if_neg href] at hbytes
        omega
    refine ⟨⟨hlive, ?_, by rw [hledger]; exact hle, ?_⟩, hledger, hdescs⟩
    · dsimp only
      rw [releaseInternal_zoneWriteBuffer]
      split
      · exact h.size
      · exact h.size
    · unfold offset
      dsimp only
      rw [hdescs]
      exact h.within
  · cases hs'
    exact ⟨h, rfl, rfl⟩

include hone hi

/-- A command loses bytes, or none if `KeepsBytes`. -/
theorem LedgerInv.command (B : PerfModel τ) {req : ZnsRequest} (hon : OnZones zp req)
    (hpages : KeepsPages sp zp i s (.command req)) :
    Partial (s.step B (.command req)) fun s' => LedgerInv sp zp i s' ∧
      Balance sp zp i s s' (.command req) ∧ ∃ ops, s'.pending = s.pending ++ ops ∧
        ZoneEffect i s.ftl req s'.ftl ops := by
  intro s' hs'
  obtain ⟨⟨z', ops⟩, hz', hs'⟩ := bind_ok.mp hs'
  cases hs'
  obtain ⟨hlive, heffect⟩ := h.live.command_zoneEffect hb hi B hon _ hz'
  have hbal := heffect.balance hb hone hi h.live.placed hlive.placed
    (fun hv => (h.live.inside i hi hv).1) h.within hpages
  exact ⟨⟨hlive, hbal.size.trans h.size, hbal.le.trans h.le, hbal.within⟩, hbal, ops, rfl, heffect⟩

end Event

theorem offset_init (perf : τ) (storage : Nat → UInt8) :
    offset (znsInitFtl sp zp perf storage) i = 0 := Nat.sub_self _

theorem ledgerInv_init (hb : Buffered sp zp) (hone : OneshotFits sp) (perf : τ) (storage : Nat → UInt8) :
    LedgerInv sp zp i { ftl := znsInitFtl sp zp perf storage } ∧
      ledger sp zp i { ftl := znsInitFtl sp zp perf storage } = zp.zoneWbSize := by
  have hlive := (coverInv_init hb.wide perf storage).live
  have hoff : offset (znsInitFtl sp zp perf storage) i = 0 := offset_init perf storage
  have hle (_ : ((znsInitFtl sp zp perf storage).zoneDescs i).zrwav = false) :
      offset (znsInitFtl sp zp perf storage) i ≤ zp.zoneSize / 512 := by
    rw [hoff]
    exact Nat.zero_le _
  have hledger : ledger sp zp i { ftl := znsInitFtl sp zp perf storage } = zp.zoneWbSize := by
    unfold ledger
    dsimp only
    rw [openBytes_eq_zero hb.wide hone.pos hle (.inr (.inl (by rw [hoff, Nat.zero_mod])))]
    rfl
  exact ⟨⟨hlive, rfl, Nat.le_of_eq hledger, hle⟩, hledger⟩

theorem buffered_of_init {scfg : SsdConfig} {cfg : ZnsConfig} {capacity : Nat}
    (hsp : ssdInitParams scfg capacity 1 = .ok sp) (hzp : znsInitParams cfg sp capacity = .ok zp)
    (hwb : zp.zoneWbSize ≠ 0) : Buffered sp zp := by
  refine ⟨wide_of_init hsp hzp, hwb, ?_⟩
  unfold znsInitParams at hzp
  simp only [Outcome.bind_ok] at hzp
  obtain ⟨_, -, _, -, _, -, hzp⟩ := hzp
  cases hzp
  exact u32_lt _

/-! ## Programs and releases since the last reset -/

/-- The command is a write or zone append to zone `i`. -/
def writesZone (z : ZnsFtl τ) : ZnsRequest → Nat → Prop
  | .rw req, i => (req.cmd.opcode = .write ∨ req.cmd.opcode = .zoneAppend) ∧ lbaToZone z req.cmd.slba = i
  | .zoneMgmtSend _ _ _, _ => False

instance (z : ZnsFtl τ) (i : Nat) : ∀ req, Decidable (writesZone z req i)
  | .rw _ => inferInstanceAs (Decidable (_ ∧ _))
  | .zoneMgmtSend _ _ _ => .isFalse id

/-- The device, with the internal operations that were scheduled for zone `i` and the NAND commands of
the writes to it, both since its last reset. -/
structure ZoneLog (τ : Type) where
  dev : ZnsDevice (τ × List NandCmd)
  scheduled : List InternalOp := []
  programmed : List NandCmd := []

/-- One event, and its record. -/
def ZoneLog.step (B : PerfModel τ) (i : Nat) (s : ZoneLog τ) (event : ZnsEvent) :
    Except Bug (ZoneLog τ) := do
  let dev ← s.dev.step B.logged event
  match event with
  | .complete _ => pure { s with dev }
  | .command req =>
    if resetsZone s.dev.ftl req i then pure { dev }
    else pure {
      dev
      scheduled := s.scheduled ++ opsOf i (dev.pending.drop s.dev.pending.length)
      programmed := s.programmed ++
        if writesZone s.dev.ftl req i then dev.ftl.ssd.perf.2.drop s.dev.ftl.ssd.perf.2.length else [] }

/-- The one-shot pages of zone `i` that the first `b` blocks complete were programmed once each, in
order: the `k`-th NAND command is a program at a page of the `k`-th one-shot page. -/
def ProgrammedOnce (sp : SsdParams) (zp : ZnsParams) (i : Nat) (z : ZnsFtl τ) (cmds : List NandCmd)
    (n : Nat) : Prop :=
  ∃ lpns : List Nat, (∀ lpn ∈ lpns, i * zonePages zp ≤ lpn ∧ lpn < i * zonePages zp + zonePages zp) ∧
    cmds.map (fun cmd => (cmd.cmd, cmd.ppa)) = lpns.map (fun lpn => (.write, lpnToPpa z lpn)) ∧
    lpns.map (fun lpn => (lpn - i * zonePages zp) / sp.pgsPerOneshotpg) = List.range n

/-- What was scheduled and programmed for zone `i` is what its blocks complete. -/
structure LogInv (sp : SsdParams) (zp : ZnsParams) (i : Nat) (s : ZoneLog τ) : Prop where
  inv : LedgerInv sp zp i s.dev
  bytes : (s.dev.ftl.zoneDescs i).zrwav = false →
    (s.scheduled.map (·.buffsToRelease)).sum = programmedBytes sp zp (offset s.dev.ftl i)
  pages : (s.dev.ftl.zoneDescs i).zrwav = false → ProgrammedOnce sp zp i s.dev.ftl s.programmed
    (closed sp.pgsPerOneshotpg (zonePages zp) (offset s.dev.ftl i / 8))

theorem ProgrammedOnce.congr {z z' : ZnsFtl τ} (hp : Params sp zp z) (hp' : Params sp zp z')
    {cmds : List NandCmd} {n : Nat} (h : ProgrammedOnce sp zp i z cmds n) :
    ProgrammedOnce sp zp i z' cmds n := by
  obtain ⟨lpns, hin, hcmds, hidx⟩ := h
  refine ⟨lpns, hin, ?_, hidx⟩
  simp only [lpnToPpa_congr (hp'.sp_eq.trans hp.sp_eq.symm) (hp'.zp_eq.trans hp.zp_eq.symm)]
  exact hcmds

/-- Nothing is programmed at the start of the zone. -/
theorem programmedOnce_nil (hw : Wide sp zp) (z : ZnsFtl τ) :
    ProgrammedOnce sp zp i z [] (closed sp.pgsPerOneshotpg (zonePages zp) (0 / 8)) := by
  have hpages := (zonePages_eq hw).2.2
  refine ⟨[], fun _ h => (by cases h), rfl, ?_⟩
  rw [Nat.zero_div, closed_of_lt hpages, Nat.zero_div]
  rfl

/-- The write pointer stays and nothing is recorded. -/
theorem LogInv.quiet {s s' : ZoneLog τ} (h : LogInv sp zp i s) (hinv : LedgerInv sp zp i s'.dev)
    (hsame : (s'.dev.ftl.zoneDescs i).zrwav = false → (s.dev.ftl.zoneDescs i).zrwav = false ∧
      offset s'.dev.ftl i = offset s.dev.ftl i ∧ s'.scheduled = s.scheduled ∧
      s'.programmed = s.programmed) : LogInv sp zp i s' := by
  refine ⟨hinv, fun hv' => ?_, fun hv' => ?_⟩
  · obtain ⟨hv, hoff, hs, -⟩ := hsame hv'
    rw [hoff, hs]
    exact h.bytes hv
  · obtain ⟨hv, hoff, -, hp⟩ := hsame hv'
    rw [hoff, hp]
    exact (h.pages hv).congr h.inv.live.placed.toParams hinv.live.placed.toParams

/-- A zone whose write pointer is at its start, with nothing recorded. -/
theorem LedgerInv.logInv (hb : Buffered sp zp) (hone : OneshotFits sp) {dev : ZnsDevice (τ × List NandCmd)}
    (h : LedgerInv sp zp i dev) (hoff : offset dev.ftl i = 0) : LogInv sp zp i { dev } := by
  refine ⟨h, fun _ => ?_, fun _ => ?_⟩
  · dsimp only
    rw [hoff, programmedBytes_eq hb.wide hone.pos (Nat.zero_le _) (.inl (Nat.zero_mod _)), Nat.zero_mul]
    rfl
  · dsimp only
    rw [hoff]
    exact programmedOnce_nil hb.wide _

/-- More one-shot pages are programmed. -/
theorem ProgrammedOnce.append {z : ZnsFtl τ} {cmds cmds' : List NandCmd} {n k : Nat}
    (h : ProgrammedOnce sp zp i z cmds n) {turns : List (Nat × Nat)}
    (hin : ∀ turn ∈ turns, i * zonePages zp ≤ turn.1 ∧ turn.1 < i * zonePages zp + zonePages zp)
    (hcmds : cmds'.map (fun cmd => (cmd.cmd, cmd.ppa)) = turns.map fun turn => (.write, lpnToPpa z turn.1))
    (hidx : turns.map (fun turn => (turn.1 - i * zonePages zp) / sp.pgsPerOneshotpg) = List.range' n k) :
    ProgrammedOnce sp zp i z (cmds ++ cmds') (n + k) := by
  obtain ⟨lpns, hlpns, hcmds₀, hidx₀⟩ := h
  refine ⟨lpns ++ turns.map Prod.fst, fun lpn hmem => ?_, ?_, ?_⟩
  · rw [List.mem_append, List.mem_map] at hmem
    obtain hmem | ⟨turn, hmem, rfl⟩ := hmem
    · exact hlpns lpn hmem
    · exact hin turn hmem
  · rw [List.map_append, List.map_append, hcmds₀, hcmds, List.map_map]
    rfl
  · rw [List.map_append, List.map_map, hidx₀]
    change _ ++ turns.map (fun turn => (turn.1 - i * zonePages zp) / sp.pgsPerOneshotpg) = _
    rw [hidx, List.range_eq_range', List.range_eq_range', ← List.range'_append_1, Nat.zero_add]

section Step

variable (hb : Buffered sp zp) (hone : OneshotFits sp) (hi : Low zp i) (B : PerfModel τ)

include hb hi

/-- The NAND programs of a write command to a plain zone. -/
theorem Live.write_log {z : ZnsFtl (τ × List NandCmd)} (h : Live sp zp z) {req : RwRequest}
    (hwrite : PlainWriteTo z req i) :
    Partial (znsProcScheduled B.logged z (.rw req)) fun r => WriteLog z r.1 req i := by
  rintro ⟨z', ops⟩ hr
  have hproc := znsProcScheduled_ok hr
  rw [znsProcRw_write B.logged hwrite.opcode] at hproc
  obtain ⟨o, ho, hz'⟩ := bind_ok.mp hproc
  cases hz'
  unfold Nvmev.znsWrite at ho
  rw [h.placed.lpnToZone_eq hb.wide, hwrite.zone, if_pos hwrite.plain] at ho
  exact h.plainWrite_log hb B hwrite.zone hi.lt o ho

/-- Nothing is recorded for a plain zone, unless the command is a write that it takes. -/
theorem Live.recorded_none {z : ZnsFtl (τ × List NandCmd)} (h : Live sp zp z) {req : ZnsRequest}
    {r : ZnsFtl (τ × List NandCmd) × List InternalOp} (hr : znsProcScheduled B.logged z req = .ok r)
    (hv : (z.zoneDescs i).zrwav = false)
    (hno : ∀ rw, req = .rw rw → PlainWriteTo z rw i →
      ¬ (Sequential z rw i ∧ rw.cmd.nrLbas * 512 ≤ (z.zoneWriteBuffer i).remaining)) :
    (if writesZone z req i then r.1.ssd.perf.2.drop z.ssd.perf.2.length else []) = [] := by
  split
  · rename_i hwrites
    cases req with
    | zoneMgmtSend _ _ _ => cases hwrites
    | rw rw =>
      have hwrite : PlainWriteTo z rw i := ⟨hwrites.1, hwrites.2, hv⟩
      have hlog : WriteLog z r.1 rw i := h.write_log hb hi B hwrite r hr
      rw [hlog.none (hno rw rfl hwrite), List.drop_length]
  · rfl

include hone

theorem LogInv.command {s : ZoneLog τ} (h : LogInv sp zp i s) {req : ZnsRequest} (hon : OnZones zp req)
    (hpages : KeepsPages sp zp i s.dev (.command req)) :
    Partial (s.step B i (.command req)) (LogInv sp zp i) := by
  intro s' hs'
  obtain ⟨dev, hdev, hs'⟩ := bind_ok.mp hs'
  obtain ⟨hinv, -, ops, hpend, heffect⟩ := h.inv.command hb hone hi B.logged hon hpages dev hdev
  obtain ⟨r, hr, he⟩ := bind_ok.mp hdev
  cases he
  have hp := h.inv.live.placed
  have hp' := hinv.live.placed
  dsimp only at hs' hpend heffect
  by_cases hreset : resetsZone s.dev.ftl req i
  · rw [if_pos hreset] at hs'
    cases hs'
    cases heffect with
    | reset _ hclear _ _ => exact hinv.logInv hb hone (offset_eq_zero hclear.2)
    | kept hno _ _ _ _ | gotZrwa hno _ _ _ _ => exact absurd hreset hno
    | failed _ _ _ _ _ _ | done _ _ _ _ _ _ _ _ => exact absurd hreset id
  · rw [if_neg hreset] at hs'
    have hops : (s.dev.pending ++ r.2).drop s.dev.pending.length = r.2 := List.drop_left
    cases hs'
    rw [hops]
    obtain rfl : r.2 = ops := List.append_cancel_left hpend
    cases heffect with
    | kept _ hroom hk _ hnil =>
      refine h.quiet hinv fun hv => ?_
      have hv' := hk.zrwav.symm.trans hv
      refine ⟨hv', offset_congr hi hp hp' (hk.wp hv'), ?_, ?_⟩
      · dsimp only
        rw [hnil, List.append_nil]
      · have hno := h.inv.live.recorded_none hb hi B hr hv'
          fun rw hreq hwrite hc => absurd hc.2 (Nat.not_le_of_lt (hroom rw hreq hwrite))
        dsimp only
        rw [hno, List.append_nil]
    | gotZrwa _ _ hv _ _ =>
      refine h.quiet hinv fun hv' => ?_
      dsimp only at hv'
      rw [hv] at hv'
      cases hv'
    | reset hc _ _ _ => exact absurd hc hreset
    | @failed rw _ _ hwrite _ hfails hdesc _ hnil =>
      refine h.quiet hinv fun _ => ⟨hwrite.plain, ?_, ?_, ?_⟩
      · unfold offset
        dsimp only
        rw [hdesc]
      · dsimp only
        rw [hnil, List.append_nil]
      · have hno := h.inv.live.recorded_none hb hi B hr hwrite.plain
          fun rw hreq _ hc => by cases hreq; exact hfails hc.1
        dsimp only
        rw [hno, List.append_nil]
    | @done rw _ _ hwrite hroom hpass hv hwp hle _ hbytes =>
      obtain ⟨hoff, hend, hstart⟩ := offset_write hb hi hp hp'
        (h.inv.live.inside i hi hwrite.plain).1 hwp hle
      obtain ⟨⟨k, hk, hidx⟩, hsum, hin⟩ := writeTurns_spec hb.wide hp.toParams hi hone.le hone.pos
        (nrLbas_pos rw.cmd) hstart hend (hpages hwrite hpass hroom)
      have hwrites : writesZone s.dev.ftl (.rw rw) i := ⟨hwrite.opcode, hwrite.zone⟩
      have hlog : WriteLog s.dev.ftl r.1 rw i := h.inv.live.write_log hb hi B hwrite r hr
      refine ⟨hinv, fun _ => ?_, fun _ => ?_⟩
      · dsimp only
        rw [List.map_append, List.sum_append, h.bytes hwrite.plain, hbytes, hoff, hsum]
      · dsimp only
        rw [if_pos hwrites, hoff, ← hk]
        exact ((h.pages hwrite.plain).append hin (hlog.turns hpass hroom) hidx).congr
          hp.toParams hp'.toParams

theorem LogInv.step {s : ZoneLog τ} (h : LogInv sp zp i s) {event : ZnsEvent}
    (hon : ∀ req, event = .command req → OnZones zp req) (hpages : KeepsPages sp zp i s.dev event) :
    Partial (s.step B i event) (LogInv sp zp i) := by
  cases event with
  | command req => exact h.command hb hone hi B (hon req rfl) hpages
  | complete k =>
    intro s' hs'
    obtain ⟨dev, hdev, hs'⟩ := bind_ok.mp hs'
    cases hs'
    obtain ⟨hinv, -, hds⟩ := h.inv.complete hb B.logged k dev hdev
    refine h.quiet hinv fun hv => ⟨?_, ?_, rfl, rfl⟩
    · rw [hds] at hv
      exact hv
    · unfold offset
      dsimp only
      rw [hds]

end Step

/-! ## Page-aligned writes -/

/-- A write or zone append is of whole pages. -/
def PageAligned : ZnsRequest → Prop
  | .rw req => req.cmd.opcode = .write ∨ req.cmd.opcode = .zoneAppend →
      req.cmd.slba % 8 = 0 ∧ req.cmd.nrLbas % 8 = 0
  | .zoneMgmtSend _ _ _ => True

/-- No byte of the write buffer of zone `i` is lost. -/
structure FullLedger (sp : SsdParams) (zp : ZnsParams) (i : Nat) (s : ZnsDevice τ) : Prop where
  inv : LedgerInv sp zp i s
  eq : ledger sp zp i s = zp.zoneWbSize
  aligned : (s.ftl.zoneDescs i).zrwav = false → offset s.ftl i % 8 = 0

theorem FullLedger.step (hb : Buffered sp zp) (hone : OneshotFits sp) (hi : Low zp i) {s : ZnsDevice τ}
    (h : FullLedger sp zp i s) (B : PerfModel τ) {event : ZnsEvent}
    (hon : ∀ req, event = .command req → OnZones zp req ∧ PageAligned req)
    (hkeeps : KeepsBytes sp zp i s event) : Partial (s.step B event) (FullLedger sp zp i) := by
  intro s' hs'
  cases event with
  | complete k =>
    obtain ⟨hinv, hledger, hds⟩ := h.inv.complete hb B k s' hs'
    refine ⟨hinv, hledger.trans h.eq, ?_⟩
    unfold offset
    rw [hds]
    exact h.aligned
  | command req =>
    obtain ⟨hzones, halign⟩ := hon req rfl
    have hpages : KeepsPages sp zp i s (.command req) := by
      cases req with
      | zoneMgmtSend _ _ _ => exact trivial
      | rw req =>
        intro hwrite _ _ hin
        have h1 := h.aligned hwrite.plain
        have h2 := (halign hwrite.opcode).2
        exact hin.1 (by omega)
    obtain ⟨hinv, hbal, ops, hpend, heffect⟩ := h.inv.command hb hone hi B hzones hpages s' hs'
    refine ⟨hinv, (hbal.eq hkeeps).trans h.eq, fun hv => ?_⟩
    have hslba := zslba_eq hi h.inv.live.placed hinv.live.placed
    unfold offset
    rw [hslba]
    cases heffect with
    | kept _ _ hk _ _ =>
      have hv' := hk.zrwav.symm.trans hv
      rw [hk.wp hv']
      exact h.aligned hv'
    | gotZrwa _ _ hv' _ _ =>
      rw [hv'] at hv
      cases hv
    | reset _ hclear _ _ => rw [hclear.2, hslba, Nat.sub_self]
    | failed _ _ _ hdesc _ _ =>
      rw [hdesc] at hv ⊢
      exact h.aligned hv
    | @done req _ _ hwrite _ _ _ hwp _ _ _ =>
      have h1 := h.aligned hwrite.plain
      have h2 := (halign hwrite.opcode).2
      have h3 := (h.inv.live.inside i hi hwrite.plain).1
      unfold offset at h1
      rw [hwp]
      omega

/-- The whole buffer is there when the zone is empty and nothing is pending. -/
theorem FullLedger.remaining_eq (hb : Buffered sp zp) (hone : OneshotFits sp) (hi : Low zp i)
    {s : ZnsDevice τ} (h : FullLedger sp zp i s) (hempty : (s.ftl.zoneDescs i).state = .empty)
    (hidle : opsOf i s.pending = []) :
    (s.ftl.zoneWriteBuffer i).remaining = (s.ftl.zoneWriteBuffer i).size := by
  have hledger := h.eq
  have hoff : offset s.ftl i = 0 := by
    unfold offset
    rw [(h.inv.live.placed.zone i hi.lt).2.1 hempty, Nat.sub_self]
  have hnone : bytesOf i s.pending = 0 := by
    rw [bytesOf, hidle]
    rfl
  unfold ledger at hledger
  rw [hnone, openBytes_eq_zero hb.wide hone.pos h.inv.within
    (.inr (.inl (by rw [hoff, Nat.zero_mod])))] at hledger
  rw [h.inv.size]
  omega

/-- A plain write for which there is room in the buffer is not refused. -/
theorem znsWritePlain_accepted (B : PerfModel τ) {req : RwRequest} {buf : Buffer}
    (hbuf : z.buffer (zoneBufferRef z (lbaToZone z req.cmd.slba)) = buf)
    (hsize : req.cmd.nrLbas * 512 ≤ buf.size) (hroom : req.cmd.nrLbas * 512 ≤ buf.remaining) :
    Total (znsWritePlain B z req) fun o => o.accepted = true := by
  have hn := nrLbas_le req.cmd
  cases hw : znsWritePlain B z req with
  | error e =>
    have halloc : bufferAllocate buf (lbaToByte req.cmd.nrLbas) =
        .ok (u32 (req.cmd.nrLbas * 512), { buf with remaining := buf.remaining - req.cmd.nrLbas * 512 }) := by
      unfold bufferAllocate
      rw [lbaToByte_of_lt (by omega), nvmevAssert, ensure_of _ hsize, ok_bind, if_neg (by omega)]
      rfl
    unfold Nvmev.znsWritePlain at hw
    simp only [hbuf, halloc, ok_bind] at hw
    split at hw
    · cases hw
    split at hw <;> cases hw
  | ok o =>
    refine ⟨o, rfl, ?_⟩
    cases znsWritePlain_outcome B hw with
    | refused hshort _ _ _ =>
      rw [hbuf] at hshort
      omega
    | failed _ _ _ hacc _ _ => exact hacc
    | done _ _ _ _ _ _ hacc _ _ _ _ _ _ => exact hacc

end Zns

/-- A namespace with write buffers for its zones, and a zone `i` that ends below block 2^32. In every
run of commands and completions, in any order, in which no write that succeeds on the zone ends inside the
last page of a one-shot page: the buffer never has more than its size, also after the releases that are
still pending; and when writes have filled the zone since its last reset, the releases scheduled for it
are the bytes of the zone, and each of its one-shot pages was programmed by one `NAND_WRITE`. -/
theorem zone_buffer_accounting {τ : Type} (B : PerfModel τ) {scfg : SsdConfig} {cfg : ZnsConfig}
    {sp : SsdParams} {zp : ZnsParams} {capacity : Nat}
    (hsp : ssdInitParams scfg capacity 1 = .ok sp) (hzp : znsInitParams cfg sp capacity = .ok zp)
    (hwb : zp.zoneWbSize ≠ 0) (hone : Zns.OneshotFits sp) {i : Nat} (hi : Zns.Low zp i) (perf : τ)
    (storage : Nat → UInt8) (events : List ZnsEvent)
    (hon : ∀ req, ZnsEvent.command req ∈ events → Zns.OnZones zp req)
    (hpages : Always (Zns.ZoneLog.step B i) (fun s => Zns.KeepsPages sp zp i s.dev)
      { dev := { ftl := znsInitFtl sp zp (perf, []) storage } } events) :
    Partial (events.foldlM (Zns.ZoneLog.step B i)
      { dev := { ftl := znsInitFtl sp zp (perf, []) storage } }) fun s =>
      (s.dev.ftl.zoneWriteBuffer i).remaining + Zns.bytesOf i s.dev.pending ≤
        (s.dev.ftl.zoneWriteBuffer i).size ∧
      ((s.dev.ftl.zoneDescs i).zrwav = false → (s.dev.ftl.zoneDescs i).wp =
          (s.dev.ftl.zoneDescs i).zslba + (s.dev.ftl.zoneDescs i).zoneCapacity →
        (s.scheduled.map (·.buffsToRelease)).sum = zp.zoneSize ∧
        Zns.ProgrammedOnce sp zp i s.dev.ftl s.programmed
          (divRoundUp (Zns.zonePages zp) sp.pgsPerOneshotpg)) := by
  have hb := Zns.buffered_of_init hsp hzp hwb
  have hinit : Zns.LogInv sp zp i { dev := { ftl := znsInitFtl sp zp (perf, []) storage } } :=
    (Zns.ledgerInv_init hb hone (perf, []) storage).1.logInv hb hone (Zns.offset_init _ storage)
  refine (Partial.always hinit hpages fun s h event hmem hP =>
    h.step hb hone hi B (fun req he => hon req (he ▸ hmem)) hP).mono fun s h => ⟨?_, fun hv hwp => ?_⟩
  · have hle := h.inv.le
    rw [h.inv.size]
    exact (Nat.le_add_right _ _).trans hle
  · obtain ⟨hsize, hlbas, -⟩ := Zns.zonePages_eq hb.wide
    have hoff : Zns.offset s.dev.ftl i = zp.zoneSize / 512 := by
      rw [Zns.offset, hwp, Nat.add_sub_cancel_left, (h.inv.live.placed.zone i hi.lt).1.2]
    refine ⟨?_, ?_⟩
    · rw [h.bytes hv, hoff, Zns.programmedBytes_eq hb.wide hone.pos (Nat.le_refl _) (.inr rfl)]
      omega
    · have hpages := h.pages hv
      rw [hoff, hlbas, Nat.mul_div_cancel _ (by decide), Groups.closed, if_pos rfl] at hpages
      exact hpages

/-- The configuration `WD_ZN540`, with zones of 256 KiB in place of 2 GiB. -/
def SsdConfig.wdZn540 : SsdConfig :=
  { nandChannels := 8, lunsPerNandCh := 4, plnsPerLun := 1, flashPageSize := 32 * 1024
    oneshotPageSize := 96 * 1024, blksPerPln := 0, blkSize := 8 * 1024, cellMode := 3
    writeUnitSize := 512, fw4kbReadLatency := 20000, fwReadLatency := 13000, globalWbSize := 0
    writeEarlyCompletion := true }

/-- Its zones: each has a write buffer of ten one-shot pages. -/
def ZnsConfig.wdZn540 : ZnsConfig :=
  { zoneSize := 256 * 1024, diesPerZone := 32, zoneWbSize := 960 * 1024 }

/-- The parameters of a `WD_ZN540` of four such zones. -/
def SsdParams.wdZn540 : SsdParams :=
  { secsz := 512, secsPerPg := 8, pgsz := 4096, pgsPerFlashpg := 8, flashpgsPerBlk := 3
    pgsPerOneshotpg := 24, oneshotpgsPerBlk := 1, pgsPerBlk := 24, blksPerPl := 4, plsPerLun := 1
    lunsPerCh := 4, nchs := 8, cellMode := 3, writeUnitSize := 512, writeEarlyCompletion := true
    fw4kbRdLat := 20000, fwRdLat := 13000, pgsPerPl := 96, pgsPerLun := 96, pgsPerCh := 384
    ttPgs := 3072, blksPerLun := 4, pgsPerLine := 768, blksPerLine := 32, ttLines := 4, ttLuns := 32
    writeBufferSize := 0 }

/-- The zones of a `WD_ZN540` of four such zones. -/
def ZnsParams.wdZn540 : ZnsParams :=
  { nrZones := 4, nrActiveZones := 4, nrOpenZones := 4, diesPerZone := 32, zoneSize := 262144
    zoneWbSize := 983040, nrZrwaZones := 0, zrwafgSize := 0, zrwaSize := 0, zrwaBufferSize := 0
    lbasPerZrwafg := 0, lbasPerZrwa := 0 }

theorem ssdInitParams_wdZn540 : ssdInitParams .wdZn540 (2 ^ 20) 1 = .ok .wdZn540 := by decide

theorem znsInitParams_wdZn540 : znsInitParams .wdZn540 .wdZn540 (2 ^ 20) = .ok .wdZn540 := by decide

/-- A write of `n + 1` blocks from `slba` on. -/
def writeBlocks (slba n : Nat) : ZnsEvent :=
  .command (.rw { cmd := { opcode := .write, slba, length := n } })

/-- Reset zone 0. -/
def resetFirstZone : ZnsEvent := .command (.zoneMgmtSend { slba := 0, zsa := .reset } 0 0)

/-- Two writes that fill zone 0, the first one up to the middle of page 12. -/
theorem zone_buffer_accounting_wdZn540 : Total
    ([writeBlocks 0 99, writeBlocks 100 411, .complete 1].foldlM (Zns.ZoneLog.step .instant 0)
      { dev := { ftl := znsInitFtl .wdZn540 .wdZn540 ((), []) fun _ => 0 } }) fun s =>
    (s.scheduled.map (·.buffsToRelease)).sum = 262144 ∧
      Zns.ProgrammedOnce .wdZn540 .wdZn540 0 s.dev.ftl s.programmed 3 := by
  have hrun : Total
      ([writeBlocks 0 99, writeBlocks 100 411, .complete 1].foldlM (Zns.ZoneLog.step .instant 0)
        { dev := { ftl := znsInitFtl .wdZn540 .wdZn540 ((), []) fun _ => 0 } }) fun s =>
      (s.dev.ftl.zoneDescs 0).zrwav = false ∧ (s.dev.ftl.zoneDescs 0).wp =
        (s.dev.ftl.zoneDescs 0).zslba + (s.dev.ftl.zoneDescs 0).zoneCapacity := by decide
  obtain ⟨s, hs, hv, hwp⟩ := hrun
  refine ⟨s, hs, ?_⟩
  exact (zone_buffer_accounting .instant ssdInitParams_wdZn540 znsInitParams_wdZn540 (by decide)
    ⟨by decide, by decide⟩ ⟨by decide, by decide⟩ () (fun _ => 0)
    [writeBlocks 0 99, writeBlocks 100 411, .complete 1]
    (by simp [writeBlocks, Zns.OnZones, Zns.InNs, ZnsParams.wdZn540]) (by decide) s hs).2 hv hwp

/-- Two writes that fill zone 0, the first one up to the last block of its first one-shot page. This
one-shot page is programmed twice, and more bytes are released than were taken. -/
theorem zone_buffer_overreleased : Total
    ([writeBlocks 0 190, writeBlocks 191 320].foldlM (Zns.ZoneLog.step .instant 0)
      { dev := { ftl := znsInitFtl .wdZn540 .wdZn540 ((), []) fun _ => 0 } }) fun s =>
    (s.dev.ftl.zoneDescs 0).state = .full ∧ (s.dev.ftl.zoneDescs 0).wp = 512 ∧
      ¬ (s.scheduled.map (·.buffsToRelease)).sum = ZnsParams.wdZn540.zoneSize ∧
      s.programmed.length = 4 ∧ divRoundUp (Zns.zonePages .wdZn540) SsdParams.wdZn540.pgsPerOneshotpg = 3 ∧
      ¬ (s.dev.ftl.zoneWriteBuffer 0).remaining + Zns.bytesOf 0 s.dev.pending ≤
        (s.dev.ftl.zoneWriteBuffer 0).size := by decide

/-- A namespace with write buffers for its zones, and a zone `i` that ends below block 2^32. In every
run of page-aligned writes, management commands and completions, in any order: if no write to the zone
fails after it took its bytes, and the zone is reset only with its last one-shot page complete, then the
buffer has all its bytes back whenever the zone is empty and nothing is pending for it, and a write to
it that fits the buffer is not refused. -/
theorem empty_zone_buffer_full {τ : Type} (B : PerfModel τ) {scfg : SsdConfig} {cfg : ZnsConfig}
    {sp : SsdParams} {zp : ZnsParams} {capacity : Nat}
    (hsp : ssdInitParams scfg capacity 1 = .ok sp) (hzp : znsInitParams cfg sp capacity = .ok zp)
    (hwb : zp.zoneWbSize ≠ 0) (hone : Zns.OneshotFits sp) {i : Nat} (hi : Zns.Low zp i) (perf : τ)
    (storage : Nat → UInt8) (events : List ZnsEvent)
    (hon : ∀ req, ZnsEvent.command req ∈ events → Zns.OnZones zp req ∧ Zns.PageAligned req)
    (hkeeps : Always (ZnsDevice.step B) (Zns.KeepsBytes sp zp i)
      { ftl := znsInitFtl sp zp perf storage } events) :
    Partial (events.foldlM (ZnsDevice.step B) { ftl := znsInitFtl sp zp perf storage }) fun s =>
      (s.ftl.zoneDescs i).state = .empty → Zns.opsOf i s.pending = [] →
        (s.ftl.zoneWriteBuffer i).remaining = (s.ftl.zoneWriteBuffer i).size ∧
        ∀ req : RwRequest, lbaToZone s.ftl req.cmd.slba = i →
          req.cmd.nrLbas * 512 ≤ (s.ftl.zoneWriteBuffer i).size →
          Total (znsWrite B s.ftl req) fun o => o.accepted = true := by
  have hb := Zns.buffered_of_init hsp hzp hwb
  have hinit : Zns.FullLedger sp zp i { ftl := znsInitFtl sp zp perf storage } := by
    obtain ⟨hinv, hledger⟩ := Zns.ledgerInv_init hb hone perf storage (i := i)
    exact ⟨hinv, hledger, fun _ => by rw [Zns.offset_init]⟩
  refine (Partial.always hinit hkeeps fun s h event hmem hP =>
    h.step hb hone hi B (fun req he => hon req (he ▸ hmem)) hP).mono fun s h hempty hidle => ?_
  have hrem := h.remaining_eq hb hone hi hempty hidle
  refine ⟨hrem, fun req hz hsize => ?_⟩
  have hv := h.inv.live.counters.empty i hi.lt hempty
  unfold znsWrite
  rw [h.inv.live.placed.lpnToZone_eq hb.wide, hz, if_pos hv]
  have hbuf : s.ftl.buffer (zoneBufferRef s.ftl (lbaToZone s.ftl req.cmd.slba)) =
      s.ftl.zoneWriteBuffer i := by
    unfold zoneBufferRef
    rw [h.inv.live.placed.zp_eq, if_pos hwb, hz]
    rfl
  exact Zns.znsWritePlain_accepted B hbuf hsize (by rw [hrem]; exact hsize)

/-- A write of a whole one-shot page, its release and a reset. -/
theorem empty_zone_buffer_full_wdZn540 : Total
    ([writeBlocks 0 191, .complete 0, resetFirstZone].foldlM (ZnsDevice.step .instant)
      { ftl := znsInitFtl .wdZn540 .wdZn540 () fun _ => 0 }) fun s =>
    (s.ftl.zoneWriteBuffer 0).remaining = (s.ftl.zoneWriteBuffer 0).size := by
  have hrun : Total
      ([writeBlocks 0 191, .complete 0, resetFirstZone].foldlM (ZnsDevice.step .instant)
        { ftl := znsInitFtl .wdZn540 .wdZn540 () fun _ => 0 }) fun s =>
      (s.ftl.zoneDescs 0).state = .empty ∧ Zns.opsOf 0 s.pending = [] := by decide
  obtain ⟨s, hs, hempty, hidle⟩ := hrun
  refine ⟨s, hs, ?_⟩
  exact (empty_zone_buffer_full .instant ssdInitParams_wdZn540 znsInitParams_wdZn540 (by decide)
    ⟨by decide, by decide⟩ ⟨by decide, by decide⟩ () (fun _ => 0)
    [writeBlocks 0 191, .complete 0, resetFirstZone]
    (by simp [writeBlocks, resetFirstZone, Zns.OnZones, Zns.InNs, Zns.PageAligned, ZnsParams.wdZn540,
      RwCommand.nrLbas, u16]) (by decide) s hs hempty hidle).1

/-- A write of one page and a reset: the bytes of the page do not come back, and a write of the size of
the buffer is refused. -/
theorem empty_zone_buffer_leaks : Total
    ([writeBlocks 0 7, resetFirstZone].foldlM (ZnsDevice.step .instant)
      { ftl := znsInitFtl .wdZn540 .wdZn540 () fun _ => 0 }) fun s =>
    (s.ftl.zoneDescs 0).state = .empty ∧ Zns.opsOf 0 s.pending = [] ∧
      ¬ (s.ftl.zoneWriteBuffer 0).remaining = (s.ftl.zoneWriteBuffer 0).size ∧
      Total (znsWrite .instant s.ftl { cmd := { opcode := .write, slba := 0, length := 1919 } })
        fun o => ¬ o.accepted = true := by decide

end Nvmev
