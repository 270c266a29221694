import NvmeVirt.Zns.Zrwa

/-!
# The zone indices of a command

The entries of `zone_descs`, `zone_write_buffer` and `zrwa_buffer` that a command uses are those of
`zoneIndices`. `ZnsFtl.withTail` puts other entries behind the arrays: a command whose indices are in
range answers the same and leaves the same (`znsProcAnswer_withTail`).

The zone of an address is the low half of a 64-bit quotient and is not compared with the number of
zones, other than in `__check_zmgmt_rcv_option_supported`. So a command whose address is behind the
namespace is not refused: it goes to an entry behind the arrays, or to the zone that it aliases.
-/

namespace Nvmev

open CInt Function Outcome

namespace Zns

variable {τ : Type}

/-- `z` with the entries of `r` from the `n`-th on in the arrays of the zones. -/
def withTail (n : Nat) (r z : ZnsFtl τ) : ZnsFtl τ :=
  { z with
    zoneDescs := fun i => if i < n then z.zoneDescs i else r.zoneDescs i
    zoneWriteBuffer := fun i => if i < n then z.zoneWriteBuffer i else r.zoneWriteBuffer i
    zrwaBuffer := fun i => if i < n then z.zrwaBuffer i else r.zrwaBuffer i }

section Reset

/-- The `memset` of `__reset_zone`. -/
def wipedZone (z : ZnsFtl τ) (zid : Nat) : ZnsFtl τ :=
  let start := u64 (zid * z.zp.zoneSize)
  { z with storage := fun a => if start ≤ a ∧ a < start + z.zp.zoneSize then 0 else z.storage a }

/-- `__reset_zone` up to the random write area. -/
def clearedZone (z : ZnsFtl τ) (zid : Nat) : ZnsFtl τ :=
  (wipedZone z zid).setDesc zid
    { z.zoneDescs zid with wp := (z.zoneDescs zid).zslba, zrwav := false }

/-- The refill of the ZRWA buffer in `__reset_zone`. -/
def refilledZone (z : ZnsFtl τ) (zid : Nat) : ZnsFtl τ :=
  if z.zp.zrwaBufferSize ≠ 0 then z.setBuffer (bufferRefill (z.zrwaBuffer zid)) (.zrwaBuffer zid)
  else z

theorem resetZone_eq (z : ZnsFtl τ) (zid : Nat) :
    resetZone z zid = refilledZone (clearedZone z zid) zid := rfl

end Reset

/-- An entry below `n` of an array with other entries from `n` on. -/
theorem update_tail {α : Type} {n k : Nat} (h : k < n) (a b : Nat → α) (x : α) :
    update (fun i => if i < n then a i else b i) k x =
      fun i => if i < n then update a k x i else b i := by
  funext i
  by_cases hi : i = k
  · subst hi
    simp only [update_self, if_pos h]
  · simp only [update_of_ne hi]

section Tail

variable {n zid : Nat} (r z : ZnsFtl τ)

@[simp] theorem withTail_ssd : (withTail n r z).ssd = z.ssd := rfl

@[simp] theorem withTail_zp : (withTail n r z).zp = z.zp := rfl

@[simp] theorem withTail_resInfos : (withTail n r z).resInfos = z.resInfos := rfl

@[simp] theorem withTail_release (type : ZoneResource) :
    releaseZoneResource (withTail n r z) type = withTail n r (releaseZoneResource z type) := by
  unfold releaseZoneResource
  rw [withTail_resInfos]
  rfl

@[simp] theorem withTail_full (type : ZoneResource) :
    isZoneResourceFull (withTail n r z) type = isZoneResourceFull z type := rfl

@[simp] theorem withTail_setPerf (perf : τ) :
    (withTail n r z).setPerf perf = withTail n r (z.setPerf perf) := rfl

@[simp] theorem withTail_zoneToSlba (i : Nat) : zoneToSlba (withTail n r z) i = zoneToSlba z i := rfl

@[simp] theorem withTail_zoneToElba (i : Nat) : zoneToElba (withTail n r z) i = zoneToElba z i := rfl

@[simp] theorem withTail_lbaToZone (lba : Nat) : lbaToZone (withTail n r z) lba = lbaToZone z lba := rfl

@[simp] theorem withTail_lbaToLpn (lba : Nat) : lbaToLpn (withTail n r z) lba = lbaToLpn z lba := rfl

@[simp] theorem withTail_lpnToPpa (lpn : Nat) : lpnToPpa (withTail n r z) lpn = lpnToPpa z lpn := rfl

@[simp] theorem withTail_acquire (type : ZoneResource) :
    acquireZoneResource (withTail n r z) type =
      (acquireZoneResource z type).map id (withTail n r) := by
  unfold acquireZoneResource isZoneResourceAvail
  rw [withTail_resInfos]
  split <;> rfl

variable (h : zid < n)
include h

theorem withTail_zoneDescs : (withTail n r z).zoneDescs zid = z.zoneDescs zid := if_pos h

theorem withTail_zrwaBuffer : (withTail n r z).zrwaBuffer zid = z.zrwaBuffer zid := if_pos h

theorem withTail_setDesc (d : ZoneDescriptor) :
    (withTail n r z).setDesc zid d = withTail n r (z.setDesc zid d) := by
  unfold ZnsFtl.setDesc withTail
  congr 1
  exact update_tail h _ _ _

theorem withTail_changeZoneState (state : ZoneState) :
    changeZoneState (withTail n r z) zid state = withTail n r (changeZoneState z zid state) := by
  unfold changeZoneState
  rw [withTail_zoneDescs r z h, withTail_setDesc r z h]

theorem withTail_setZrwaBuffer (b : Buffer) :
    (withTail n r z).setBuffer b (.zrwaBuffer zid) =
      withTail n r (z.setBuffer b (.zrwaBuffer zid)) := by
  simp only [ZnsFtl.setBuffer]
  unfold withTail
  congr 1
  exact update_tail h _ _ _

theorem withTail_setZoneBuffer (b : Buffer) :
    (withTail n r z).setBuffer b (zoneBufferRef z zid) =
      withTail n r (z.setBuffer b (zoneBufferRef z zid)) := by
  unfold zoneBufferRef
  split
  · simp only [ZnsFtl.setBuffer]
    unfold withTail
    congr 1
    exact update_tail h _ _ _
  · rfl

theorem withTail_zoneBuffer :
    (withTail n r z).buffer (zoneBufferRef z zid) = z.buffer (zoneBufferRef z zid) := by
  unfold zoneBufferRef
  split
  · exact if_pos h
  · rfl

/-! ## Zone management send -/

theorem withTail_releaseActive :
    releaseActive (withTail n r z) zid = withTail n r (releaseActive z zid) := by
  unfold releaseActive
  rw [withTail_zoneDescs r z h, withTail_release]
  cases (z.zoneDescs zid).zrwav
  · rfl
  · exact withTail_release r _ .zrwaZone

theorem withTail_close :
    zmgmtSendCloseZone (withTail n r z) zid = (zmgmtSendCloseZone z zid).map id (withTail n r) := by
  unfold zmgmtSendCloseZone
  rw [withTail_zoneDescs r z h]
  cases (z.zoneDescs zid).state <;>
    simp only [withTail_release, withTail_changeZoneState _ _ h, Prod.map, id_eq]

theorem withTail_finish :
    zmgmtSendFinishZone (withTail n r z) zid =
      (zmgmtSendFinishZone z zid).map id (withTail n r) := by
  unfold zmgmtSendFinishZone
  rw [withTail_zoneDescs r z h]
  cases (z.zoneDescs zid).state <;>
    simp only [withTail_release, withTail_releaseActive _ _ h, withTail_changeZoneState _ _ h,
      Prod.map, id_eq]

theorem withTail_openClosed :
    openClosedZone (withTail n r z) zid = (openClosedZone z zid).map id (withTail n r) := by
  unfold openClosedZone
  rw [withTail_acquire]
  rcases acquireZoneResource z .openZone with ⟨_ | _, z'⟩
  · rfl
  · simp only [Prod.map, id_eq, withTail_changeZoneState _ _ h]

theorem withTail_open (zrwa : Bool) :
    zmgmtSendOpenZone (withTail n r z) zid zrwa =
      (zmgmtSendOpenZone z zid zrwa).map id (withTail n r) := by
  unfold zmgmtSendOpenZone
  rw [withTail_zoneDescs r z h]
  cases (z.zoneDescs zid).state
  case empty =>
    simp only [withTail_full]
    split_ifs
    case pos | pos | pos => rfl
    all_goals
      simp only [withTail_acquire, Prod.map_snd, withTail_zoneDescs _ _ h, withTail_setDesc _ _ h,
        withTail_openClosed _ _ h]
  case closed => exact withTail_openClosed r z h
  case openedImpl => simp only [withTail_changeZoneState _ _ h, Prod.map, id_eq]
  all_goals rfl

theorem withTail_resetZone : resetZone (withTail n r z) zid = withTail n r (resetZone z zid) := by
  have hcleared : clearedZone (withTail n r z) zid = withTail n r (clearedZone z zid) := by
    have hwiped : wipedZone (withTail n r z) zid = withTail n r (wipedZone z zid) := rfl
    unfold clearedZone
    rw [withTail_zoneDescs r z h, hwiped, withTail_setDesc r _ h]
  rw [resetZone_eq, resetZone_eq, hcleared]
  unfold refilledZone
  rw [withTail_zp, withTail_zrwaBuffer r _ h, withTail_setZrwaBuffer r _ h]
  split <;> rfl

theorem withTail_reset :
    zmgmtSendResetZone (withTail n r z) zid =
      (zmgmtSendResetZone z zid).map id (withTail n r) := by
  unfold zmgmtSendResetZone
  rw [withTail_zoneDescs r z h]
  cases (z.zoneDescs zid).state <;>
    simp only [withTail_release, withTail_releaseActive _ _ h, withTail_changeZoneState _ _ h,
      withTail_resetZone _ _ h, Prod.map, id_eq]

theorem withTail_offline :
    zmgmtSendOfflineZone (withTail n r z) zid =
      (zmgmtSendOfflineZone z zid).map id (withTail n r) := by
  unfold zmgmtSendOfflineZone
  rw [withTail_zoneDescs r z h]
  cases (z.zoneDescs zid).state <;>
    simp only [withTail_changeZoneState _ _ h, Prod.map, id_eq]

theorem withTail_flushZrwaTo (slba : Nat) :
    flushZrwaTo (withTail n r z) zid slba = withTail n r (flushZrwaTo z zid slba) := by
  unfold flushZrwaTo
  simp only [withTail_zoneDescs _ _ h, withTail_setDesc _ _ h, withTail_zoneToSlba]
  split
  · split <;> simp only [withTail_release, withTail_changeZoneState _ _ h]
  · rfl

omit h

/-- A computation that goes on with the tails. -/
theorem bind_tail {α β γ δ : Type} {x : Except Bug α} {x' : Except Bug γ} {k : α → γ}
    (hx : x' = x.map k) {f : α → Except Bug β} {f' : γ → Except Bug δ} {g : β → δ}
    (hf : ∀ a, x = .ok a → f' (k a) = (f a).map g) : (x' >>= f') = (x >>= f).map g := by
  subst hx
  cases x with
  | error e => rfl
  | ok a => exact hf a rfl

theorem bind_same {α β δ : Type} {x : Except Bug α} {f : α → Except Bug β} {f' : α → Except Bug δ}
    {g : β → δ} (hf : ∀ a, x = .ok a → f' a = (f a).map g) : (x >>= f') = (x >>= f).map g :=
  bind_tail (k := id) (by cases x <;> rfl) hf

theorem withTail_flushExplicit {slba : Nat} (h : lbaToZone z slba < n) :
    zmgmtSendFlushExplicitZrwa (withTail n r z) slba =
      (zmgmtSendFlushExplicitZrwa z slba).map (Prod.map id (withTail n r)) := by
  unfold zmgmtSendFlushExplicitZrwa
  simp only [withTail_lbaToZone, withTail_zoneDescs _ _ h, withTail_zp, withTail_zoneToSlba,
    withTail_flushZrwaTo _ _ h]
  split
  · rfl
  split
  · rfl
  refine bind_same fun _ _ => ?_
  split
  · rfl
  cases (z.zoneDescs (lbaToZone z slba)).state <;> rfl

/-- The actions that use the zone of the address. -/
def usesZone : ZoneSendAction → Bool
  | .setZoneDescExt | .other _ => false
  | _ => true

theorem withTail_zmgmtSend (junk : Nat) {slba : Nat} {action : ZoneSendAction} (option : Bool)
    (h : usesZone action = true → lbaToZone z slba < n) :
    zmgmtSend (withTail n r z) junk slba action option =
      (zmgmtSend z junk slba action option).map (Prod.map id (withTail n r)) := by
  unfold zmgmtSend
  simp only [withTail_lbaToZone]
  cases action with
  | close => exact congrArg Except.ok (withTail_close r z (h rfl))
  | finish => exact congrArg Except.ok (withTail_finish r z (h rfl))
  | openZone => exact congrArg Except.ok (withTail_open r z (h rfl) option)
  | reset => exact congrArg Except.ok (withTail_reset r z (h rfl))
  | offline => exact congrArg Except.ok (withTail_offline r z (h rfl))
  | flushExplZrwa => exact withTail_flushExplicit r z (h rfl)
  | setZoneDescExt => rfl
  | other => rfl

section Send

variable {sp : SsdParams} {zp : ZnsParams} {z : ZnsFtl τ}

theorem openClosedZone_params (hz : Params sp zp z) (zid : Nat) :
    Params sp zp (openClosedZone z zid).2 := by
  have hssd := acquire_ssd z .openZone
  have hzp := acquire_zp z .openZone
  unfold openClosedZone
  split <;> rename_i he <;> rw [he] at hssd hzp
  · exact hz.same (congrArg Ssd.sp hssd) hzp
  · exact hz.same (congrArg Ssd.sp hssd) hzp

theorem flushZrwaTo_params (hz : Params sp zp z) (zid slba : Nat) :
    Params sp zp (flushZrwaTo z zid slba) := by
  unfold flushZrwaTo
  simp only []
  split
  · split <;> exact hz.same rfl rfl
  · exact hz.same rfl rfl

theorem zmgmtSend_params (hz : Params sp zp z) (junk slba : Nat) (action : ZoneSendAction)
    (option : Bool) : Partial (zmgmtSend z junk slba action option) fun r => Params sp zp r.2 := by
  unfold zmgmtSend
  cases action with
  | close => unfold zmgmtSendCloseZone; simp only []; split <;> exact .ret (hz.same rfl rfl)
  | finish =>
    unfold zmgmtSendFinishZone; simp only []
    split <;> exact .ret (hz.same (by simp) (by simp))
  | openZone =>
    refine .ret ?_
    unfold zmgmtSendOpenZone
    simp only []
    split
    · split
      · exact hz
      split
      · exact hz
      split
      · exact hz
      refine openClosedZone_params (hz.same ?_ ?_) _
      · rw [acquire_ssd]
        split <;> simp
      · rw [acquire_zp]
        split <;> simp
    · exact openClosedZone_params hz _
    all_goals exact hz.same rfl rfl
  | reset =>
    unfold zmgmtSendResetZone; simp only []
    split <;> refine .ret ?_
    case h_6 => exact hz
    all_goals exact hz.same (by simp) (by simp)
  | offline => unfold zmgmtSendOfflineZone; simp only []; split <;> exact .ret (hz.same rfl rfl)
  | flushExplZrwa =>
    unfold zmgmtSendFlushExplicitZrwa
    simp only []
    split
    · exact .ret hz
    split
    · exact .ret hz
    refine Partial.bind .ensure fun _ _ => ?_
    split
    · exact .ret hz
    split
    all_goals first | exact .ret hz | exact .ret (flushZrwaTo_params hz _ _)
  | setZoneDescExt => exact .ret hz
  | other => exact .ret hz

/-- The loop of a `select_all` command. -/
theorem withTail_sendLoop (hz : Params sp zp z) (junk : Nat) (cmd : ZoneMgmtSend) {l : List Nat}
    (hl : ∀ zid ∈ l, ∀ z : ZnsFtl τ, Params sp zp z → lbaToZone z (zoneToSlba z zid) < n) :
    (l.foldlM (fun z zid => do
      let (_, z) ← zmgmtSend z junk (zoneToSlba z zid) cmd.zsa cmd.zsaso
      pure z) (withTail n r z) : Except Bug (ZnsFtl τ)) =
      (l.foldlM (fun z zid => do
        let (_, z) ← zmgmtSend z junk (zoneToSlba z zid) cmd.zsa cmd.zsaso
        pure z) z : Except Bug (ZnsFtl τ)).map (withTail n r) := by
  induction l generalizing z with
  | nil => rfl
  | cons zid l ih =>
    rw [List.foldlM_cons, List.foldlM_cons]
    have hzid := hl zid (by simp) z hz
    refine bind_tail (k := withTail n r) ?_ fun z₁ hz₁ =>
      ih ?_ fun zid hzid => hl zid (List.mem_cons_of_mem _ hzid)
    · rw [withTail_zoneToSlba]
      exact bind_tail (withTail_zmgmtSend r z junk cmd.zsaso fun _ => hzid) fun _ _ => rfl
    · obtain ⟨a, ha, heq⟩ := bind_ok.mp hz₁
      cases heq
      exact zmgmtSend_params hz junk _ _ _ a ha

end Send

theorem withTail_znsZmgmtSend (junk nsecsStart : Nat) (cmd : ZoneMgmtSend) (hn : n < 2 ^ 32)
    (hcount : z.zp.nrZones = n)
    (h : cmd.selectAll = false → usesZone cmd.zsa = true → lbaToZone z cmd.slba < n) :
    znsZmgmtSend (withTail n r z) junk cmd nsecsStart =
      (znsZmgmtSend z junk cmd nsecsStart).map (Prod.map id (withTail n r)) := by
  unfold znsZmgmtSend
  cases hall : cmd.selectAll with
  | true =>
    refine bind_tail (k := withTail n r) ?_ fun _ _ => rfl
    have hz : Params z.ssd.sp z.zp z := ⟨rfl, rfl⟩
    refine withTail_sendLoop r hz junk cmd fun zid hzid z' _ => ?_
    have := List.mem_range.mp hzid
    rw [withTail_zp, hcount] at this
    exact lbaToZone_zoneToSlba_lt this hn
  | false =>
    exact bind_tail (withTail_zmgmtSend r z junk cmd.zsaso (h hall)) fun _ _ => rfl

/-! ## Reads and writes -/

section Rw

variable (B : PerfModel τ) (sqId stime : Nat)

theorem withTail_writeLoop (zoneElpn : Nat) (ref : BufferRef) (elpn fuel lpn : Nat) (s : FlushState τ) :
    writeLoop (withTail n r z) B sqId stime zoneElpn ref elpn fuel lpn s =
      writeLoop z B sqId stime zoneElpn ref elpn fuel lpn s := by
  induction fuel generalizing lpn s with
  | zero => rfl
  | succ fuel ih =>
    unfold writeLoop
    simp only [withTail_lpnToPpa, withTail_ssd, withTail_zp, ih]
    rfl

theorem withTail_zrwaLoop (zid fuel lpn remaining : Nat) (s : FlushState τ) :
    zrwaLoop (withTail n r z) B sqId stime zid fuel lpn remaining s =
      zrwaLoop z B sqId stime zid fuel lpn remaining s := by
  induction fuel generalizing lpn remaining s with
  | zero => rfl
  | succ fuel ih =>
    unfold zrwaLoop
    simp only [withTail_lpnToPpa, withTail_ssd, ih]
    rfl

theorem withTail_readLoop (elpn fuel lpn nsecsLatest : Nat) (perf : τ) :
    readLoop B (withTail n r z) stime elpn fuel lpn nsecsLatest perf =
      readLoop B z stime elpn fuel lpn nsecsLatest perf := by
  induction fuel generalizing lpn nsecsLatest perf with
  | zero => rfl
  | succ fuel ih =>
    unfold readLoop
    simp only [withTail_lpnToPpa, withTail_ssd, ih]

/-- An outcome with the tails. -/
def tailOutcome (n : Nat) (r : ZnsFtl τ) (o : IoOutcome (ZnsFtl τ)) : IoOutcome (ZnsFtl τ) :=
  { o with ftl := withTail n r o.ftl }

theorem withTail_znsRead {req : RwRequest} (h : lpnToZone z (lbaToLpn z req.cmd.slba) < n) :
    znsRead B (withTail n r z) req = tailOutcome n r (znsRead B z req) := by
  have hboundary (slba nrLba : Nat) :
      checkBoundaryError (withTail n r z) slba nrLba = checkBoundaryError z slba nrLba := rfl
  have hzone : lpnToZone (withTail n r z) (lbaToLpn z req.cmd.slba) =
      lpnToZone z (lbaToLpn z req.cmd.slba) := rfl
  unfold znsRead tailOutcome
  simp only [withTail_lbaToLpn, hzone, withTail_zoneDescs _ _ h, hboundary, withTail_ssd,
    withTail_readLoop, withTail_setPerf]

variable (h : zid < n)
include h

theorem withTail_increaseWritePtr (k : Nat) :
    increaseWritePtr (withTail n r z) zid k = withTail n r (increaseWritePtr z zid k) := by
  unfold increaseWritePtr
  simp only [withTail_zoneDescs _ _ h, withTail_setDesc _ _ h, withTail_zoneToSlba]
  split
  · simp only [withTail_release, withTail_changeZoneState _ _ h]
  · rfl

theorem withTail_openImplicitly :
    openImplicitly (withTail n r z) zid = (openImplicitly z zid).map id (withTail n r) := by
  unfold openImplicitly
  rw [withTail_acquire]
  rcases acquireZoneResource z .openZone with ⟨_ | _, z'⟩
  · rfl
  · simp only [Prod.map, id_eq, withTail_changeZoneState _ _ h]

theorem withTail_writeSwitch (slba : Nat) :
    writeSwitch (withTail n r z) zid slba = (writeSwitch z zid slba).map id (withTail n r) := by
  unfold writeSwitch
  rw [withTail_zoneDescs r z h]
  cases (z.zoneDescs zid).state
  case empty =>
    simp only [withTail_full, withTail_acquire, Prod.map_snd, withTail_openImplicitly _ _ h]
    split_ifs <;> rfl
  case closed => exact withTail_openImplicitly r z h
  all_goals rfl

theorem withTail_writeChecks (slba nrLba : Nat) :
    writeChecks (withTail n r z) zid slba nrLba =
      (writeChecks z zid slba nrLba).map id (withTail n r) := by
  have hboundary : checkBoundaryError (withTail n r z) slba nrLba = checkBoundaryError z slba nrLba :=
    rfl
  unfold writeChecks
  simp only [withTail_ssd, hboundary, withTail_zoneDescs _ _ h, withTail_writeSwitch _ _ h]
  split_ifs <;> rfl

theorem withTail_zrwaBufferAllocate (size : Nat) :
    zrwaBufferAllocate (withTail n r z) zid size =
      (zrwaBufferAllocate z zid size).map (Prod.map id (withTail n r)) := by
  unfold zrwaBufferAllocate
  rw [withTail_zp, withTail_zrwaBuffer r z h]
  refine bind_same fun _ _ => bind_same fun a _ => ?_
  simp only [withTail_setZrwaBuffer _ _ h]
  rfl

theorem withTail_openZrwa :
    openZrwa (withTail n r z) zid = (openZrwa z zid).map (Prod.map id (withTail n r)) := by
  unfold openZrwa
  rw [withTail_acquire]
  rcases acquireZoneResource z .openZone with ⟨_ | _, z'⟩
  · rfl
  · refine bind_tail (k := Prod.map id (withTail n r)) (withTail_zrwaBufferAllocate r z' h _) ?_
    rintro ⟨got, z''⟩ -
    refine bind_same fun _ _ => ?_
    simp only [withTail_changeZoneState _ _ h]
    rfl

theorem withTail_zrwaChecks (slba nrLba : Nat) :
    zrwaChecks (withTail n r z) zid slba nrLba =
      (zrwaChecks z zid slba nrLba).map (Prod.map id (withTail n r)) := by
  have hboundary : checkBoundaryError (withTail n r z) slba nrLba = checkBoundaryError z slba nrLba :=
    rfl
  unfold zrwaChecks
  simp only [withTail_ssd, withTail_zp, hboundary, withTail_zoneDescs _ _ h]
  split
  · rfl
  split
  · rfl
  split
  · rfl
  cases (z.zoneDescs zid).state
  case closed => exact withTail_openZrwa r z h
  case empty => exact withTail_openZrwa r z h
  all_goals rfl

theorem withTail_flushImplicit (flush : Nat) :
    flushImplicit (withTail n r z) zid flush =
      (flushImplicit z zid flush).map (Prod.map id (withTail n r)) := by
  unfold flushImplicit
  split
  · refine bind_tail (k := Prod.map id (withTail n r)) (withTail_zrwaBufferAllocate r z h _) ?_
    rintro ⟨got, z'⟩ -
    simp only [Prod.map, id_eq, withTail_increaseWritePtr _ _ h]
    split <;> rfl
  · rfl

omit h

theorem withTail_znsWritePlain {req : RwRequest} (h : lbaToZone z req.cmd.slba < n) :
    znsWritePlain B (withTail n r z) req = (znsWritePlain B z req).map (tailOutcome n r) := by
  have href : zoneBufferRef (withTail n r z) (lbaToZone z req.cmd.slba) =
      zoneBufferRef z (lbaToZone z req.cmd.slba) := rfl
  have helpn : zoneToElpn (withTail n r z) (lbaToZone z req.cmd.slba) =
      zoneToElpn z (lbaToZone z req.cmd.slba) := rfl
  unfold znsWritePlain
  simp only [withTail_lbaToZone, withTail_lbaToLpn, withTail_zoneDescs _ _ h, href, helpn,
    withTail_zoneBuffer _ _ h, withTail_setZoneBuffer _ _ h, withTail_writeChecks _ _ h]
  refine bind_same ?_
  rintro ⟨got, buf⟩ -
  simp only []
  split
  · rfl
  generalize writeChecks (z.setBuffer buf (zoneBufferRef z (lbaToZone z req.cmd.slba)))
    (lbaToZone z req.cmd.slba) _ _ = checked
  rcases checked with ⟨_ | status, z'⟩
  · simp only [Prod.map, id_eq, withTail_increaseWritePtr _ _ h, withTail_ssd, withTail_writeLoop,
      withTail_setPerf]
    rfl
  · rfl

theorem withTail_znsWriteZrwa {req : RwRequest} (h : lbaToZone z req.cmd.slba < n) :
    znsWriteZrwa B (withTail n r z) req = (znsWriteZrwa B z req).map (tailOutcome n r) := by
  unfold znsWriteZrwa
  simp only [withTail_lbaToZone, withTail_zoneDescs _ _ h]
  refine bind_tail (k := Prod.map id (withTail n r)) (withTail_zrwaChecks r z h _ _) ?_
  rintro ⟨_ | status, z'⟩ -
  · have hflush : nrLbasFlush (withTail n r z') (lbaToZone z req.cmd.slba) = nrLbasFlush z'
        (lbaToZone z req.cmd.slba) := by
      funext prevWp elba
      exact nrLbasFlush_congr rfl rfl prevWp elba
    simp only [Prod.map, id_eq, hflush]
    refine bind_same fun flush _ => ?_
    refine bind_tail (k := Prod.map id (withTail n r)) (withTail_flushImplicit r z' h flush) ?_
    rintro ⟨refused, z''⟩ -
    simp only [Prod.map, id_eq]
    split
    · rfl
    · simp only [withTail_ssd, withTail_lbaToLpn, withTail_zrwaLoop, withTail_setPerf]
      rfl
  · rfl

theorem withTail_znsWrite {req : RwRequest} (hlpn : lpnToZone z (lbaToLpn z req.cmd.slba) < n)
    (hlba : lbaToZone z req.cmd.slba < n) :
    znsWrite B (withTail n r z) req = (znsWrite B z req).map (tailOutcome n r) := by
  have hzone : lpnToZone (withTail n r z) (lbaToLpn z req.cmd.slba) =
      lpnToZone z (lbaToLpn z req.cmd.slba) := rfl
  unfold znsWrite
  simp only [withTail_lbaToLpn, hzone, withTail_zoneDescs _ _ hlpn]
  split
  · exact withTail_znsWritePlain r z B hlba
  · exact withTail_znsWriteZrwa r z B hlba

end Rw

end Tail

/-! ## The indices of a command -/

section Command

variable (B : PerfModel τ) (z : ZnsFtl τ)

/-- The zones whose entries a zone management send command to one zone uses. -/
def sendIndices (slba : Nat) (action : ZoneSendAction) : List Nat :=
  if usesZone action then [lbaToZone z slba] else []

/-- The indices with which a command goes to `zone_descs`, `zone_write_buffer` and `zrwa_buffer`.
`zns_write` takes the zone of the page for the random-write-area flag, and the handler that it calls
the zone of the block for all the rest. -/
def zoneIndices : ZnsRequest → List Nat
  | .rw req => match req.cmd.opcode with
    | .write | .zoneAppend => [lpnToZone z (lbaToLpn z req.cmd.slba), lbaToZone z req.cmd.slba]
    | .read => [lpnToZone z (lbaToLpn z req.cmd.slba)]
    | _ => []
  | .zoneMgmtSend cmd _ _ =>
    if cmd.selectAll then
      (List.range z.zp.nrZones).flatMap fun zid => sendIndices z (zoneToSlba z zid) cmd.zsa
    else sendIndices z cmd.slba cmd.zsa

/-- What `zns_proc_nvme_io_cmd` returns: the outcome of a read or a write, or the result of a flush or
a management command, and the FTL after it. -/
inductive Answer (τ : Type) where
  | io (o : IoOutcome (ZnsFtl τ))
  | result (ret : Result) (ftl : ZnsFtl τ)
  | unimplemented (ftl : ZnsFtl τ)

/-- The FTL after a command. -/
def Answer.ftl : Answer τ → ZnsFtl τ
  | .io o => o.ftl
  | .result _ ftl => ftl
  | .unimplemented ftl => ftl

/-- The command was taken and its status is that of a success. -/
def Answer.Succeeded : Answer τ → Prop
  | .io o => o.accepted = true ∧ o.ret.status = Sc.success
  | .result ret _ => ret.status = Sc.success
  | .unimplemented _ => False

/-- An answer with other entries behind the arrays. -/
def Answer.tail (n : Nat) (r : ZnsFtl τ) : Answer τ → Answer τ
  | .io o => .io (tailOutcome n r o)
  | .result ret ftl => .result ret (withTail n r ftl)
  | .unimplemented ftl => .unimplemented (withTail n r ftl)

/-- `zns_proc_nvme_io_cmd` with its result. -/
def znsProcAnswer : ZnsRequest → Except Bug (Answer τ)
  | .rw req => match req.cmd.opcode with
    | .write | .zoneAppend => (znsWrite B z req).map .io
    | .read => .ok (.io (znsRead B z req))
    | .flush => .ok (.result (znsFlush B z).1 (znsFlush B z).2)
    | _ => .ok (.unimplemented z)
  | .zoneMgmtSend cmd nsecsStart junk =>
    (znsZmgmtSend z junk cmd nsecsStart).map fun r => .result r.1 r.2

theorem znsProcAnswer_ftl (req : ZnsRequest) :
    (znsProcAnswer B z req).map Answer.ftl = znsProcNvmeIoCmd B z req := by
  cases req with
  | rw req =>
    unfold znsProcAnswer znsProcNvmeIoCmd
    dsimp only
    generalize req.cmd.opcode = opcode
    cases opcode
    case write => cases znsWrite B z req <;> rfl
    case zoneAppend => cases znsWrite B z req <;> rfl
    all_goals rfl
  | zoneMgmtSend cmd nsecsStart junk =>
    unfold znsProcAnswer znsProcNvmeIoCmd
    dsimp only
    cases znsZmgmtSend z junk cmd nsecsStart <;> rfl

/-- A command whose indices are in range does not depend on what is behind the arrays, and does not
change it. -/
theorem znsProcAnswer_withTail (r : ZnsFtl τ) (hcount : z.zp.nrZones < 2 ^ 32) {req : ZnsRequest}
    (h : ∀ i ∈ zoneIndices z req, i < z.zp.nrZones) :
    znsProcAnswer B (withTail z.zp.nrZones r z) req =
      (znsProcAnswer B z req).map (Answer.tail z.zp.nrZones r) := by
  cases req with
  | rw req =>
    unfold znsProcAnswer
    unfold zoneIndices at h
    dsimp only at h ⊢
    generalize hop : req.cmd.opcode = opcode at h
    have hwrite (hlpn : lpnToZone z (lbaToLpn z req.cmd.slba) < z.zp.nrZones)
        (hlba : lbaToZone z req.cmd.slba < z.zp.nrZones) :
        (znsWrite B (withTail z.zp.nrZones r z) req).map Answer.io =
          ((znsWrite B z req).map Answer.io).map (Answer.tail z.zp.nrZones r) := by
      rw [withTail_znsWrite r z B hlpn hlba]
      cases znsWrite B z req <;> rfl
    cases opcode
    case write => exact hwrite (h _ (by simp)) (h _ (by simp))
    case zoneAppend => exact hwrite (h _ (by simp)) (h _ (by simp))
    case read =>
      show Except.ok (Answer.io (znsRead B (withTail z.zp.nrZones r z) req)) = _
      rw [withTail_znsRead r z B (h _ (by simp))]
      rfl
    all_goals rfl
  | zoneMgmtSend cmd nsecsStart junk =>
    show (znsZmgmtSend (withTail z.zp.nrZones r z) junk cmd nsecsStart).map _ = _
    rw [withTail_znsZmgmtSend r z junk nsecsStart cmd hcount rfl fun hall huse => ?_]
    · show _ = ((znsZmgmtSend z junk cmd nsecsStart).map _).map _
      cases znsZmgmtSend z junk cmd nsecsStart <;> rfl
    · refine h _ ?_
      show lbaToZone z cmd.slba ∈ if cmd.selectAll = true then _ else sendIndices z cmd.slba cmd.zsa
      unfold sendIndices
      rw [hall, if_pos huse]
      exact List.mem_singleton_self _

end Command

/-- The address of the command is a block of the namespace, or the command does not use its address. -/
def AddressesZone (zp : ZnsParams) : ZnsRequest → Prop
  | .rw req => match req.cmd.opcode with
    | .write | .zoneAppend | .read => InNs zp req.cmd.slba
    | _ => True
  | .zoneMgmtSend cmd _ _ => cmd.selectAll = true ∨ InNs zp cmd.slba

/-- The command with another indeterminate status. -/
def withJunk (junk : Nat) : ZnsRequest → ZnsRequest
  | .rw req => .rw req
  | .zoneMgmtSend cmd nsecsStart _ => .zoneMgmtSend cmd nsecsStart junk

/-- The zone numbers of a command are in range: it goes to the entries of existing zones only, so that
what is behind the arrays has no effect on its answer and stays as it is. A command whose address is not in
the namespace is answered with an error, whatever an unset status holds, and goes to no entry. -/
structure ZonesInRange (B : PerfModel τ) (z : ZnsFtl τ) (req : ZnsRequest) : Prop where
  indices : ∀ i ∈ zoneIndices z req, i < z.zp.nrZones
  behind : ∀ r, znsProcAnswer B (withTail z.zp.nrZones r z) req =
    (znsProcAnswer B z req).map (Answer.tail z.zp.nrZones r)
  refused : ¬ AddressesZone z.zp req → zoneIndices z req = [] ∧
    ∀ junk a, znsProcAnswer B z (withJunk junk req) = .ok a → ¬ a.Succeeded

variable {sp : SsdParams} {zp : ZnsParams} {z : ZnsFtl τ}

/-- The zone of the page is the zone of the block. -/
theorem Params.lpnToZone_lbaToLpn (hw : Wide sp zp) (hz : Params sp zp z) (lba : Nat) :
    lpnToZone z (lbaToLpn z lba) = lbaToZone z lba := by
  have hal := hw.aligned
  have hlbas : zp.zoneSize / 512 = 8 * (zp.zoneSize / 4096) := by omega
  unfold lbaToZone lpnToZone lbaToLpn
  rw [hz.zoneLbas_eq hw, hz.sp_eq, hz.zp_eq, hw.sectors.secsPerPg, hw.sectors.pgsz, hlbas,
    Nat.div_div_eq_div_mul]

/-- A command with an address in the namespace uses the entries of existing zones. -/
theorem zoneIndices_lt (hw : Wide sp zp) (hz : Params sp zp z) {req : ZnsRequest}
    (h : AddressesZone zp req) : ∀ i ∈ zoneIndices z req, i < z.zp.nrZones := by
  rw [hz.zp_eq]
  have hzone {slba : Nat} (hin : InNs zp slba) : lbaToZone z slba < zp.nrZones :=
    (hz.zone_of_inNs hw hin).2.1
  cases req with
  | rw req =>
    unfold zoneIndices
    unfold AddressesZone at h
    dsimp only at h ⊢
    generalize req.cmd.opcode = opcode at h
    cases opcode
    case write => simpa [hz.lpnToZone_lbaToLpn hw] using hzone h
    case zoneAppend => simpa [hz.lpnToZone_lbaToLpn hw] using hzone h
    case read => simpa [hz.lpnToZone_lbaToLpn hw] using hzone h
    all_goals simp
  | zoneMgmtSend cmd nsecsStart junk =>
    show ∀ i ∈ if cmd.selectAll = true then _ else sendIndices z cmd.slba cmd.zsa, i < zp.nrZones
    unfold sendIndices
    cases hall : cmd.selectAll with
    | true =>
      simp only [↓reduceIte, List.mem_flatMap, List.mem_range]
      rintro i ⟨zid, hzid, hi⟩
      rw [hz.zp_eq] at hzid
      split at hi
      · rw [List.mem_singleton.mp hi]
        exact lbaToZone_zoneToSlba_lt hzid hw.count
      · cases hi
    | false =>
      obtain hsel | hin := h
      · rw [hall] at hsel
        cases hsel
      · have := hzone hin
        cases usesZone cmd.zsa <;> simp [this]

/-- A command with an address behind the namespace goes to the entry of a zone, or succeeds with an unset
status. -/
theorem served_of_not_addresses (B : PerfModel τ) {req : ZnsRequest} (h : ¬ AddressesZone zp req) :
    zoneIndices z req ≠ [] ∨ ∃ a, znsProcAnswer B z (withJunk Sc.success req) = .ok a ∧ a.Succeeded := by
  cases req with
  | rw req =>
    unfold zoneIndices
    unfold AddressesZone at h
    dsimp only at h ⊢
    generalize req.cmd.opcode = opcode at h
    cases opcode
    case write => exact .inl nofun
    case zoneAppend => exact .inl nofun
    case read => exact .inl nofun
    all_goals exact absurd trivial h
  | zoneMgmtSend cmd nsecsStart junk =>
    have hall : cmd.selectAll = false := by
      cases hall : cmd.selectAll with
      | true => exact absurd (.inl hall) h
      | false => rfl
    cases huse : usesZone cmd.zsa with
    | true =>
      left
      show (if cmd.selectAll = true then _ else sendIndices z cmd.slba cmd.zsa) ≠ []
      rw [hall, sendIndices, huse]
      exact nofun
    | false =>
      right
      refine ⟨.result { status := Sc.success, nsecsTarget := nsecsStart } z, ?_, rfl⟩
      unfold znsProcAnswer withJunk
      dsimp only
      unfold znsZmgmtSend
      rw [hall]
      revert huse
      cases cmd.zsa <;> simp [usesZone, zmgmtSend, Except.map, bind, Except.bind, pure, Except.pure]

end Zns

/-- A namespace of four zones. -/
def fourZones : ZnsFtl Unit := znsInitFtl .znsPrototype .znsPrototype () fun _ => 0

/-- A zone append to zone 3, the last one. -/
def appendLast : ZnsRequest := .rw { cmd := { opcode := .zoneAppend, slba := 196608, length := 255 } }

/-- A read of the block behind the last zone. -/
def readBehind : ZnsRequest := .rw { cmd := { opcode := .read, slba := 262144, length := 7 } }

/-- A read of a block 2^32 zones behind block 0. -/
def readAliased : ZnsRequest := .rw { cmd := { opcode := .read, slba := 2 ^ 48, length := 7 } }

end Nvmev
