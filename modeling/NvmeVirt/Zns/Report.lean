import NvmeVirt.Io.Dma
import NvmeVirt.Zns.Ftl

/-!
# Zone management receive

`zns_mgmt_recv.c`: the report of the zones is put into the report buffer, a header of 64 bytes with the
descriptors behind it, and `nr_dw + 1` double words of the buffer are copied to the host. The memory
from the report buffer on is the `storage` of the `Memories`.

The number of the reported zones is clamped to the device, the length of the copy is not. A short
report with the partial bit has less than a header, and the subtraction of the header wraps
(`zone_report_iff`).
-/

namespace Nvmev

open CInt Bytes Outcome

/-- `struct nvme_zone_mgmt_recv`. -/
structure ZoneMgmtRecv where
  prp1 : Nat := 0
  prp2 : Nat := 0
  slba : Nat
  /-- The 32-bit, 0-based number of double words. -/
  nrDw : Nat
  zra : UInt8 := 0
  zraSpecificField : UInt8 := 0
  /-- The partial bit. -/
  zraSpecificFeatures : Bool := false
  deriving DecidableEq, Repr

/-- The values of `enum zone_state`. -/
def ZoneState.code : ZoneState → Nat
  | .empty => 0x1
  | .openedImpl => 0x2
  | .openedExpl => 0x3
  | .closed => 0x4
  | .readOnly => 0xD
  | .full => 0xE
  | .offline => 0xF

/-- `sizeof(struct zone_descriptor)`. -/
def descSize : Nat := 64

/-- The offset of `zd` in `struct zone_report`. -/
def reportHeader : Nat := 64

/-- Byte `k` of a `struct zone_descriptor`. The type is `ZONE_TYPE_SEQ_WRITE_REQUIRED`. -/
def ZoneDescriptor.byte (d : ZoneDescriptor) (k : Nat) : UInt8 :=
  if k = 0 then 2
  else if k = 1 then UInt8.ofNat (d.state.code <<< 4)
  else if k = 2 then if d.zrwav then 8 else 0
  else if k < 8 then 0
  else if k < 16 then wordByte d.zoneCapacity (k - 8)
  else if k < 24 then wordByte d.zslba (k - 16)
  else if k < 32 then wordByte d.wp (k - 24)
  else 0

/-- `(cmd->nr_dw + 1) * sizeof(uint32_t)`: the increment is 32 bits wide, the product 64. -/
def ZoneMgmtRecv.bytesTransfer (cmd : ZoneMgmtRecv) : Nat := u64 (u32 (u32 cmd.nrDw + 1) * 4)

/-- `__prp_transfer_data`: the loop of `__do_perform_io` with every page mapped by `kmap_atomic_pfn`. -/
def prpTransferData (prp1 prp2 length io : Nat) (ms : Prp.Memories) : Except Bug (Nat × Prp.Transfer) := do
  let dir := if io = 0 then .toHost else .toStorage
  let s ← Prp.memcpyLoop .kmap prp1 prp2 dir length {} length 0 { ms }
  pure (length, s)

section Report

variable {τ : Type} (z : ZnsFtl τ) (cmd : ZoneMgmtRecv)

/-- `nr_zone_to_report`, the number of zones in the header. -/
def nrZoneToReport : Nat :=
  let left := sub64 z.zp.nrZones (lbaToZone z cmd.slba)
  let nr :=
    if cmd.zraSpecificFeatures = false then left
    else sub64 (cmd.bytesTransfer / descSize) 1
  if nr > left then left else nr

/-- `__fill_zone_report`. -/
def fillZoneReport (report : Mem) : Mem :=
  let nr := nrZoneToReport z cmd
  copyIn (copyIn report 0 (wordByte nr) 8) reportHeader
    (fun k => (z.zoneDescs (lbaToZone z cmd.slba + k / descSize)).byte (k % descSize))
    (u64 (descSize * nr))

/-- `__check_zmgmt_rcv_option_supported`. -/
def checkZmgmtRcvOptionSupported : Bool :=
  if lbaToZone z cmd.slba ≥ z.zp.nrZones then false
  else if cmd.zra ≠ 0 then false
  else if cmd.zraSpecificField ≠ 0 then false
  else true

/-- `zns_zmgmt_recv`. -/
def znsZmgmtRecv (nsecsStart : Nat) (ms : Prp.Memories) : Except Bug (Result × Prp.Transfer) :=
  if checkZmgmtRcvOptionSupported z cmd then do
    let ms := { ms with storage := fillZoneReport z cmd ms.storage }
    let (_, s) ← prpTransferData cmd.prp1 cmd.prp2 cmd.bytesTransfer 0 ms
    pure ({ status := Sc.success, nsecsTarget := nsecsStart }, s)
  else pure ({ status := Sc.invalidField, nsecsTarget := nsecsStart }, { ms })

end Report

/-! ## What a report has to be -/

/-- The size of a report of every zone of the device. -/
def reportSize (zp : ZnsParams) : Nat := reportHeader + descSize * zp.nrZones

namespace Prp.Transfer

/-- The offsets in the buffer of the bytes that were copied, in their order. -/
def sources (s : Transfer) : List Nat := (s.copies.flatMap Copy.moves).map (·.storage)

/-- `nr_zones` in the header of the report. -/
def nrZones (s : Transfer) : Nat := readU64 s.ms.storage 0

end Prp.Transfer

section

variable {τ : Type} {z : ZnsFtl τ} {cmd : ZoneMgmtRecv} {ms : Prp.Memories} {nsecsStart : Nat}

/-- The bytes that go to the host are in the report; its descriptors are those of the zones from the
zone of `slba` on; a partial report counts the descriptors that went to the host. -/
structure ReportsZones (z : ZnsFtl τ) (cmd : ZoneMgmtRecv) (s : Prp.Transfer) : Prop where
  inside : ∀ a ∈ s.sources, a < reportSize z.zp
  zones : ∀ i < s.nrZones, cmd.slba / zoneLbas z + i < z.zp.nrZones ∧
    ∀ k < descSize, s.ms.storage (reportHeader + descSize * i + k) =
      (z.zoneDescs (cmd.slba / zoneLbas z + i)).byte k
  count : cmd.zraSpecificFeatures = true → s.nrZones =
    min (z.zp.nrZones - cmd.slba / zoneLbas z) ((s.sources.length - reportHeader) / descSize)

/-- The host asks for no more than the report, and for a header at least if the report is partial. -/
structure FitsReport (zp : ZnsParams) (cmd : ZoneMgmtRecv) : Prop where
  most : u32 (u32 cmd.nrDw + 1) ≤ 16 * (zp.nrZones + 1)
  least : cmd.zraSpecificFeatures = true → 16 ≤ u32 (u32 cmd.nrDw + 1)

theorem bytesTransfer_eq (cmd : ZoneMgmtRecv) : cmd.bytesTransfer = u32 (u32 cmd.nrDw + 1) * 4 := by
  have := u32_lt (u32 cmd.nrDw + 1)
  exact u64_of_lt (by omega)

/-- The transfer succeeds, and copies the first bytes of the buffer to the host. -/
theorem prpTransferData_sources (prp1 prp2 : Nat) {length : Nat} (hlen : length < 2 ^ 64) :
    Total (prpTransferData prp1 prp2 length 0 ms) fun r =>
      r.2.sources = List.range length ∧
        r.2.ms = Prp.transfer .kmap prp1 prp2 .toHost length {} length 0 ms := by
  have hdir : Prp.Dir.toHost ≠ .nowhere := by decide
  have hloop : Total (Prp.memcpyLoop .kmap prp1 prp2 .toHost length {} length 0 { ms }) _ :=
    Prp.memcpyLoop_storage hdir (Nat.le_refl length)
  obtain ⟨s, hs, hsrc⟩ := hloop
  have hms := Prp.memcpyLoop_ms s hs
  unfold prpTransferData
  simp only [↓reduceIte, hs, ok_bind]
  refine .ret ⟨?_, hms⟩
  show (s.copies.flatMap Prp.Copy.moves).map (·.storage) = List.range length
  rw [hsrc, List.flatMap_nil, List.map_nil, List.nil_append]
  refine (List.map_congr_left fun k hk => ?_).trans (List.map_id _)
  have := List.mem_range.mp hk
  rw [Nat.zero_add, u64_of_lt (by omega)]
  rfl

/-- An address in the namespace is in the zone that `lba_to_zone` says. -/
theorem lbaToZone_inside (hcount : z.zp.nrZones < 2 ^ 32) {slba : Nat}
    (hslba : slba < z.zp.nrZones * zoneLbas z) :
    slba / zoneLbas z < z.zp.nrZones ∧ lbaToZone z slba = slba / zoneLbas z := by
  have hlt : slba / zoneLbas z < z.zp.nrZones := Nat.div_lt_of_lt_mul (by rwa [Nat.mul_comm])
  exact ⟨hlt, u32_of_lt (by omega)⟩

/-- The clamp of the number of zones. -/
theorem nrZoneToReport_eq (hcount : z.zp.nrZones < 2 ^ 32)
    (hzone : lbaToZone z cmd.slba < z.zp.nrZones) :
    nrZoneToReport z cmd =
      if cmd.zraSpecificFeatures = false ∨ cmd.bytesTransfer < descSize then
        z.zp.nrZones - lbaToZone z cmd.slba
      else min (z.zp.nrZones - lbaToZone z cmd.slba) (cmd.bytesTransfer / descSize - 1) := by
  have hleft : sub64 z.zp.nrZones (lbaToZone z cmd.slba) = z.zp.nrZones - lbaToZone z cmd.slba :=
    sub64_of_le (by omega) (by omega)
  have hbytes := bytesTransfer_eq cmd
  have hlt := u32_lt (u32 cmd.nrDw + 1)
  unfold nrZoneToReport descSize
  rw [hleft]
  rcases cmd.zraSpecificFeatures with _ | _
  · simp
  · by_cases hsmall : cmd.bytesTransfer < 64
    · -- The subtraction of the header wraps, so that the clamp takes every zone.
      have hwrap : sub64 (cmd.bytesTransfer / 64) 1 = 2 ^ 64 - 1 := by
        rw [Nat.div_eq_of_lt hsmall]
        rfl
      simp only [Bool.true_eq_false, ↓reduceIte, hwrap, hsmall, or_true]
      split <;> omega
    · have hsub : sub64 (cmd.bytesTransfer / 64) 1 = cmd.bytesTransfer / 64 - 1 :=
        sub64_of_le (by omega) (by omega)
      simp only [Bool.true_eq_false, ↓reduceIte, hsub, hsmall, or_self]
      split <;> omega

theorem nrZoneToReport_le (hcount : z.zp.nrZones < 2 ^ 32)
    (hzone : lbaToZone z cmd.slba < z.zp.nrZones) :
    nrZoneToReport z cmd ≤ z.zp.nrZones - lbaToZone z cmd.slba := by
  rw [nrZoneToReport_eq hcount hzone]
  split <;> omega

section Fill

variable (hnr : nrZoneToReport z cmd < 2 ^ 32) (report : Mem)
include hnr

theorem fillZoneReport_nrZones : readU64 (fillZoneReport z cmd report) 0 = nrZoneToReport z cmd := by
  rw [readU64_eq (n := nrZoneToReport z cmd), u64_of_lt (by omega)]
  intro i hi
  unfold fillZoneReport descSize reportHeader
  have hsize : u64 (64 * nrZoneToReport z cmd) = 64 * nrZoneToReport z cmd := u64_of_lt (by omega)
  have hword : copyIn report 0 (wordByte (nrZoneToReport z cmd)) 8 (u64 (0 + i)) =
      wordByte (nrZoneToReport z cmd) i := copyIn_add hi (by decide)
  rw [u64_of_lt (by omega)] at hword
  rw [copyIn_of_ne, hword]
  intro k hk
  rw [hsize] at hk
  rw [u64_of_lt (by omega)]
  omega

theorem fillZoneReport_zone {i k : Nat} (hi : i < nrZoneToReport z cmd) (hk : k < descSize) :
    fillZoneReport z cmd report (reportHeader + descSize * i + k) =
      (z.zoneDescs (lbaToZone z cmd.slba + i)).byte k := by
  unfold fillZoneReport
  unfold descSize reportHeader at *
  have hsize : u64 (64 * nrZoneToReport z cmd) = 64 * nrZoneToReport z cmd := u64_of_lt (by omega)
  have haddr : 64 + 64 * i + k = u64 (64 + (64 * i + k)) := by
    rw [u64_of_lt (by omega)]
    omega
  rw [haddr, copyIn_add (by omega) (by omega), show (64 * i + k) / 64 = i by omega,
    show (64 * i + k) % 64 = k by omega]

end Fill

/-- What the command does: for a supported command, the status, the report in the buffer and the
bytes that went to the host. -/
theorem znsZmgmtRecv_spec (z : ZnsFtl τ) (cmd : ZoneMgmtRecv) (nsecsStart : Nat) (ms : Prp.Memories) :
    Total (znsZmgmtRecv z cmd nsecsStart ms) fun r =>
      (r.1.status = Sc.success ↔ checkZmgmtRcvOptionSupported z cmd = true) ∧
      (checkZmgmtRcvOptionSupported z cmd = true →
        r.2.sources = List.range cmd.bytesTransfer ∧
          r.2.ms = Prp.transfer .kmap cmd.prp1 cmd.prp2 .toHost cmd.bytesTransfer {}
            cmd.bytesTransfer 0 { ms with storage := fillZoneReport z cmd ms.storage }) := by
  have hlt : cmd.bytesTransfer < 2 ^ 64 := Nat.mod_lt _ (by decide)
  unfold znsZmgmtRecv
  by_cases hc : checkZmgmtRcvOptionSupported z cmd
  · rw [if_pos hc]
    refine (prpTransferData_sources cmd.prp1 cmd.prp2 hlt).bind fun r hr => .ret ⟨?_, fun _ => hr⟩
    exact ⟨fun _ => hc, fun _ => rfl⟩
  · rw [if_neg hc]
    refine .ret ⟨⟨fun h => ?_, fun h => absurd h hc⟩, fun h => absurd h hc⟩
    exact absurd (show Sc.invalidField = Sc.success from h) (by decide)

/-- The report in the buffer after the command. -/
theorem recv_storage {s : Prp.Transfer} {report : Mem}
    (h : s.ms = Prp.transfer .kmap cmd.prp1 cmd.prp2 .toHost cmd.bytesTransfer {} cmd.bytesTransfer 0
      { ms with storage := report }) : s.ms.storage = report := by
  rw [h, Prp.transfer_toHost_storage]

/-- Where the PRPs describe a buffer of the host, it gets the first bytes of the report. -/
theorem znsZmgmtRecv_host (z : ZnsFtl τ) (nsecsStart : Nat)
    (hbuf : Prp.IsBuffer .kmap cmd.prp1 cmd.prp2 ms.host cmd.bytesTransfer {} cmd.bytesTransfer) :
    Total (znsZmgmtRecv z cmd nsecsStart ms) fun r => r.1.status = Sc.success →
      ∀ k < cmd.bytesTransfer,
        r.2.ms.host (Prp.dataAddr .kmap cmd.prp1 cmd.prp2 ms.host cmd.bytesTransfer {}
          cmd.bytesTransfer k) = r.2.ms.storage k := by
  have hlt : cmd.bytesTransfer < 2 ^ 64 := Nat.mod_lt _ (by decide)
  refine (znsZmgmtRecv_spec z cmd nsecsStart ms).mono ?_
  rintro r ⟨hstatus, hdone⟩ hok k hk
  obtain ⟨-, hms⟩ := hdone (hstatus.mp hok)
  obtain ⟨hto, -⟩ := Prp.transfer_toHost 0 { ms with storage := fillZoneReport z cmd ms.storage }
    hbuf (Nat.le_refl _) (by omega)
  rw [recv_storage hms, hms, hto k hk, Nat.zero_add, u64_of_lt (by omega)]

/-- The check in the namespace: only the two action fields count. -/
theorem checkZmgmtRcvOptionSupported_iff (hzone : lbaToZone z cmd.slba < z.zp.nrZones) :
    checkZmgmtRcvOptionSupported z cmd = true ↔ cmd.zra = 0 ∧ cmd.zraSpecificField = 0 := by
  unfold checkZmgmtRcvOptionSupported
  rw [if_neg (by omega)]
  grind

/-- A report is in its buffer and counts its descriptors exactly when its length fits. -/
theorem reportsZones_iff (hcount : z.zp.nrZones < 2 ^ 32)
    (hslba : cmd.slba < z.zp.nrZones * zoneLbas z) {s : Prp.Transfer} {report : Mem}
    (hsrc : s.sources = List.range cmd.bytesTransfer)
    (hreport : s.ms.storage = fillZoneReport z cmd report) :
    ReportsZones z cmd s ↔ FitsReport z.zp cmd := by
  obtain ⟨hlt, hzone⟩ := lbaToZone_inside hcount hslba
  have hlt' : lbaToZone z cmd.slba < z.zp.nrZones := hzone ▸ hlt
  have hle := nrZoneToReport_le hcount hlt'
  have hnr : nrZoneToReport z cmd < 2 ^ 32 := by omega
  have hs : s.nrZones = nrZoneToReport z cmd := by
    unfold Prp.Transfer.nrZones
    rw [hreport, fillZoneReport_nrZones hnr]
  have hbytes := bytesTransfer_eq cmd
  have heq := nrZoneToReport_eq hcount hlt'
  rw [hzone] at hle heq
  constructor
  · rintro ⟨hinside, -, hpartial⟩
    rw [hsrc] at hinside hpartial
    rw [hs, List.length_range] at hpartial
    refine ⟨?_, fun hp => ?_⟩
    · -- The last byte that is copied is in the report.
      rcases Nat.eq_zero_or_pos cmd.bytesTransfer with h0 | hpos
      · omega
      · have := hinside (cmd.bytesTransfer - 1) (List.mem_range.mpr (by omega))
        unfold reportSize reportHeader descSize at this
        omega
    · -- A report without a header counts no descriptor, but the code counts them all.
      by_contra hsmall
      have hcnt := hpartial hp
      unfold reportHeader descSize at hcnt
      unfold descSize at heq
      rw [heq, if_pos (.inr (by omega))] at hcnt
      omega
  · rintro ⟨hmost, hleast⟩
    refine ⟨fun a ha => ?_, fun i hi => ?_, fun hp => ?_⟩
    · rw [hsrc, List.mem_range] at ha
      unfold reportSize reportHeader descSize
      omega
    · rw [hs] at hi
      refine ⟨by omega, fun k hk => ?_⟩
      rw [hreport, fillZoneReport_zone hnr _ hi hk, hzone]
    · have := hleast hp
      rw [hs, hsrc, List.length_range, heq]
      unfold reportHeader descSize
      rw [if_neg (by rw [hp]; simp; omega)]
      omega

/-- A report in the namespace succeeds for the action "report zones" of all states. A successful report
copies bytes of the report only, with the descriptors of the zones from the zone of `slba` on, and a
partial one counts the descriptors that were copied, exactly when the host asks for no more than a
report of every zone and for a whole header at least if the report is partial. -/
theorem zone_report_iff (hcount : z.zp.nrZones < 2 ^ 32)
    (hslba : cmd.slba < z.zp.nrZones * zoneLbas z) :
    Total (znsZmgmtRecv z cmd nsecsStart ms) fun r =>
      (r.1.status = Sc.success ↔ cmd.zra = 0 ∧ cmd.zraSpecificField = 0) ∧
      (r.1.status = Sc.success → (ReportsZones z cmd r.2 ↔ FitsReport z.zp cmd)) := by
  obtain ⟨hlt, hzone⟩ := lbaToZone_inside hcount hslba
  refine (znsZmgmtRecv_spec z cmd nsecsStart ms).mono ?_
  rintro r ⟨hstatus, hdone⟩
  refine ⟨hstatus.trans (checkZmgmtRcvOptionSupported_iff (hzone ▸ hlt)), fun hok => ?_⟩
  obtain ⟨hsrc, hms⟩ := hdone (hstatus.mp hok)
  exact reportsZones_iff hcount hslba hsrc (recv_storage hms)

end

/-- A `ZNS_PROTOTYPE` of four zones. -/
def reportedFtl : ZnsFtl Unit := znsInitFtl .znsPrototype .znsPrototype () fun _ => 0

/-- A partial report of the zones from the second on. -/
def partialReport (nrDw : Nat) : ZoneMgmtRecv := { slba := 65536, nrDw, zraSpecificFeatures := true }

theorem zone_report_iff_two_descriptors :
    Total (znsZmgmtRecv reportedFtl (partialReport 47) 0 ⟨fun _ => 0, fun _ => 0⟩) fun r =>
      (r.1.status = Sc.success ↔ (partialReport 47).zra = 0 ∧ (partialReport 47).zraSpecificField = 0) ∧
      (r.1.status = Sc.success →
        (ReportsZones reportedFtl (partialReport 47) r.2 ↔
          FitsReport reportedFtl.zp (partialReport 47))) :=
  zone_report_iff (by decide) (by decide)

/-- A report whose length does not fit. -/
theorem not_reportsZones {nrDw : Nat} (hfit : ¬ FitsReport reportedFtl.zp (partialReport nrDw)) :
    Total (znsZmgmtRecv reportedFtl (partialReport nrDw) 0 ⟨fun _ => 0, fun _ => 0⟩) fun r =>
      r.1.status = Sc.success ∧ ¬ ReportsZones reportedFtl (partialReport nrDw) r.2 := by
  refine (znsZmgmtRecv_spec reportedFtl (partialReport nrDw) 0 _).mono ?_
  rintro r ⟨hstatus, hdone⟩
  have hslba : (partialReport nrDw).slba < reportedFtl.zp.nrZones * zoneLbas reportedFtl :=
    show 65536 < reportedFtl.zp.nrZones * zoneLbas reportedFtl by decide
  have hzone : lbaToZone reportedFtl (partialReport nrDw).slba < reportedFtl.zp.nrZones :=
    show lbaToZone reportedFtl 65536 < reportedFtl.zp.nrZones by decide
  have hsup := (checkZmgmtRcvOptionSupported_iff hzone).mpr ⟨rfl, rfl⟩
  obtain ⟨hsrc, hms⟩ := hdone hsup
  exact ⟨hstatus.mpr hsup, fun h =>
    hfit ((reportsZones_iff (by decide) hslba hsrc (recv_storage hms)).mp h)⟩

/-- A report of one page: the header and four descriptors, and 3776 bytes that are behind them. A report
of one double word: it says that there are three zones, with no descriptor copied. -/
theorem zone_report_wrong_length :
    (Total (znsZmgmtRecv reportedFtl (partialReport 1023) 0 ⟨fun _ => 0, fun _ => 0⟩) fun r =>
      r.1.status = Sc.success ∧ ¬ ReportsZones reportedFtl (partialReport 1023) r.2) ∧
    (Total (znsZmgmtRecv reportedFtl (partialReport 0) 0 ⟨fun _ => 0, fun _ => 0⟩) fun r =>
      r.1.status = Sc.success ∧ ¬ ReportsZones reportedFtl (partialReport 0) r.2) :=
  ⟨not_reportsZones fun h => absurd h.most (by decide),
    not_reportsZones fun h => absurd (h.least rfl) (by decide)⟩

end Nvmev
