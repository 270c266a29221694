import NvmeVirt.Zns.Ftl

/-!
# Zone management send

`zns_mgmt_send.c`: one function for each action, and `zns_zmgmt_send`. A `case` of a C `switch`
that falls through calls the code of the next one.
-/

namespace Nvmev

open CInt

/-- `enum zone_send_action`, and the other values of the 8-bit field. -/
inductive ZoneSendAction where
  | close | finish | openZone | reset | offline | setZoneDescExt | flushExplZrwa
  | other (code : Nat)
  deriving DecidableEq, Repr

/-- `struct nvme_zone_mgmt_send`. -/
structure ZoneMgmtSend where
  slba : Nat
  zsa : ZoneSendAction
  selectAll : Bool := false
  zsaso : Bool := false
  deriving DecidableEq, Repr

section Actions

variable {τ : Type} (z : ZnsFtl τ)

/-- `__zmgmt_send_close_zone`. -/
def zmgmtSendCloseZone (zid : Nat) : Nat × ZnsFtl τ :=
  match (z.zoneDescs zid).state with
  | .openedImpl | .openedExpl =>
    (Sc.success, releaseZoneResource (changeZoneState z zid .closed) .openZone)
  | .closed => (Sc.success, z)
  | _ => (Sc.znsInvalidTransition, z)

/-- `case ZONE_STATE_CLOSED` of finish and reset: an active zone gives its resources back. -/
def releaseActive (zid : Nat) : ZnsFtl τ :=
  let isZrwaZone := (z.zoneDescs zid).zrwav
  let z := releaseZoneResource z .activeZone
  if isZrwaZone then releaseZoneResource z .zrwaZone else z

/-- `__zmgmt_send_finish_zone`. -/
def zmgmtSendFinishZone (zid : Nat) : Nat × ZnsFtl τ :=
  match (z.zoneDescs zid).state with
  | .openedImpl | .openedExpl =>
    (Sc.success, changeZoneState (releaseActive (releaseZoneResource z .openZone) zid) zid .full)
  | .closed => (Sc.success, changeZoneState (releaseActive z zid) zid .full)
  | .empty => (Sc.success, changeZoneState z zid .full)
  | .full => (Sc.success, z)
  | _ => (Sc.znsInvalidTransition, z)

/-- `case ZONE_STATE_CLOSED` of `__zmgmt_send_open_zone`. -/
def openClosedZone (zid : Nat) : Nat × ZnsFtl τ :=
  match acquireZoneResource z .openZone with
  | (false, z) => (Sc.znsNoOpenZone, z)
  | (true, z) => (Sc.success, changeZoneState z zid .openedExpl)

/-- `__zmgmt_send_open_zone`. -/
def zmgmtSendOpenZone (zid : Nat) (zrwa : Bool) : Nat × ZnsFtl τ :=
  match (z.zoneDescs zid).state with
  | .empty =>
    if isZoneResourceFull z .activeZone then (Sc.znsNoActiveZone, z)
    else if isZoneResourceFull z .openZone then (Sc.znsNoOpenZone, z)
    else if zrwa && isZoneResourceFull z .zrwaZone then (Sc.znsZrwaRsrcUnavail, z)
    else
      let z :=
        if zrwa then
          let z := (acquireZoneResource z .zrwaZone).2
          z.setDesc zid { z.zoneDescs zid with zrwav := true }
        else z
      openClosedZone (acquireZoneResource z .activeZone).2 zid
  | .closed => openClosedZone z zid
  | .openedImpl => (Sc.success, changeZoneState z zid .openedExpl)
  | .openedExpl => (Sc.success, z)
  | _ => (Sc.znsInvalidTransition, z)

/-- `__reset_zone`: clear the zone's bytes, the write pointer, the ZRWA flag and its buffer. -/
def resetZone (zid : Nat) : ZnsFtl τ :=
  let start := u64 (zid * z.zp.zoneSize)
  let z := { z with
    storage := fun a => if start ≤ a ∧ a < start + z.zp.zoneSize then 0 else z.storage a }
  let z := z.setDesc zid { z.zoneDescs zid with wp := (z.zoneDescs zid).zslba, zrwav := false }
  if z.zp.zrwaBufferSize ≠ 0 then z.setBuffer (bufferRefill (z.zrwaBuffer zid)) (.zrwaBuffer zid)
  else z

/-- `__zmgmt_send_reset_zone`. -/
def zmgmtSendResetZone (zid : Nat) : Nat × ZnsFtl τ :=
  match (z.zoneDescs zid).state with
  | .openedImpl | .openedExpl =>
    (Sc.success,
      resetZone (changeZoneState (releaseActive (releaseZoneResource z .openZone) zid) zid .empty) zid)
  | .closed => (Sc.success, resetZone (changeZoneState (releaseActive z zid) zid .empty) zid)
  | .full | .empty => (Sc.success, resetZone (changeZoneState z zid .empty) zid)
  | _ => (Sc.znsInvalidTransition, z)

/-- `__zmgmt_send_offline_zone`. -/
def zmgmtSendOfflineZone (zid : Nat) : Nat × ZnsFtl τ :=
  match (z.zoneDescs zid).state with
  | .readOnly => (Sc.success, changeZoneState z zid .offline)
  | .offline => (Sc.success, z)
  | _ => (Sc.znsInvalidTransition, z)

/-- The state change of an accepted explicit flush up to `slba`. -/
def flushZrwaTo (zid slba : Nat) : ZnsFtl τ :=
  let state := (z.zoneDescs zid).state
  let zoneCapacity := (z.zoneDescs zid).zoneCapacity
  let z := z.setDesc zid { z.zoneDescs zid with wp := u64 (slba + 1) }
  if (z.zoneDescs zid).wp = u64 (zoneToSlba z zid + zoneCapacity) then
    let z := if state ≠ .closed then releaseZoneResource z .openZone else z
    changeZoneState (releaseZoneResource (releaseZoneResource z .activeZone) .zrwaZone) zid .full
  else z

/-- `__zmgmt_send_flush_explicit_zrwa`. The remainder by `lbas_per_zrwafg` is a division. -/
def zmgmtSendFlushExplicitZrwa (slba : Nat) : Except Bug (Nat × ZnsFtl τ) := do
  let zid := lbaToZone z slba
  let d := z.zoneDescs zid
  let zrwaStart := d.wp
  let zrwaEnd := min (sub64 (u64 (zrwaStart + z.zp.lbasPerZrwa)) 1)
    (sub64 (u64 (zoneToSlba z zid + d.zoneCapacity)) 1)
  let nrLbasFlush := u64 (sub64 slba d.wp + 1)
  if d.zrwav = false then return (Sc.znsInvalidZoneOperation, z)
  if ¬(zrwaStart ≤ slba ∧ slba ≤ zrwaEnd) then return (Sc.znsInvalidZoneOperation, z)
  Outcome.ensure (z.zp.lbasPerZrwafg ≠ 0) (.divideByZero .zmgmtSendFlushExplicitZrwa)
  if nrLbasFlush % z.zp.lbasPerZrwafg ≠ 0 then return (Sc.invalidField, z)
  match d.state with
  | .openedExpl | .openedImpl | .closed => return (Sc.success, flushZrwaTo z zid slba)
  | _ => return (Sc.znsInvalidZoneOperation, z)

/-- `__zmgmt_send`. `status` is not set for the other actions: `junk` is its indeterminate
value. -/
def zmgmtSend (junk slba : Nat) (action : ZoneSendAction) (option : Bool) :
    Except Bug (Nat × ZnsFtl τ) :=
  let zid := lbaToZone z slba
  match action with
  | .close => .ok (zmgmtSendCloseZone z zid)
  | .finish => .ok (zmgmtSendFinishZone z zid)
  | .openZone => .ok (zmgmtSendOpenZone z zid option)
  | .reset => .ok (zmgmtSendResetZone z zid)
  | .offline => .ok (zmgmtSendOfflineZone z zid)
  | .flushExplZrwa => zmgmtSendFlushExplicitZrwa z slba
  | .setZoneDescExt | .other _ => .ok (junk, z)

end Actions

/-- `zns_zmgmt_send`. With `select_all` the action runs on every zone and its status is lost. -/
def znsZmgmtSend {τ : Type} (z : ZnsFtl τ) (junk : Nat) (cmd : ZoneMgmtSend) (nsecsStart : Nat) :
    Except Bug (Result × ZnsFtl τ) := do
  if cmd.selectAll then
    let z' ← (List.range z.zp.nrZones).foldlM (fun z zid => do
      let (_, z) ← zmgmtSend z junk (zoneToSlba z zid) cmd.zsa cmd.zsaso
      pure z) z
    pure ({ status := Sc.success, nsecsTarget := nsecsStart }, z')
  else
    let (status, z') ← zmgmtSend z junk cmd.slba cmd.zsa cmd.zsaso
    pure ({ status, nsecsTarget := nsecsStart }, z')

end Nvmev
