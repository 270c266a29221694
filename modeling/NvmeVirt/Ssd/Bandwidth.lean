import Mathlib.Algebra.Order.Ring.Rat
import Mathlib.Tactic.Linarith
import NvmeVirt.Ssd.LongerTransfer

/-!
# The bandwidth of a channel

`chmodel_init` turns a bandwidth in MB/s into the credits of an interval, a whole number of units of
`UNIT_XFER_SIZE` bytes. Two divisions round down, to less than a unit below the bandwidth
(`credits_le_bytes`); but nothing keeps the credits above 0, and an entry of the ring has 8 bits. Below
31 MB/s there are no credits, and a request divides by their number (`slow_channel_divides`). From 7813 MB/s
on the entries hold less than `max_credits` (`fast_channel_entries`).
-/

namespace Nvmev

open CInt Outcome

/-- The bytes that a channel of `bandwidth` MB/s transfers in an interval. -/
def bytesPerInterval (bandwidth : Nat) : ℚ := bandwidth * 2 ^ 20 * unitTimeInterval / 10 ^ 9

/-- The bytes of the credits of an interval. -/
def ChannelModel.creditBytes (ch : ChannelModel) : ℚ := ch.maxCredits * unitXferSize

/-- The credits are those of the bandwidth. -/
structure Faithful (bandwidth : Nat) (ch : ChannelModel) : Prop where
  entries : ∀ i < nrCreditEntries, ch.availCredits i = ch.maxCredits
  pos : 1 ≤ ch.maxCredits
  within : |ch.creditBytes - bytesPerInterval bandwidth| ≤ unitXferSize

section

variable {bandwidth : Nat}

/-- `BANDWIDTH_TO_MAX_CREDITS`, as `chmodel_init` stores it. -/
def bandwidthToMaxCredits (bandwidth : Nat) : Nat :=
  u32 (u64 (mb bandwidth * unitTimeInterval) / 10 ^ 9 / unitXferSize * unitXferCredits)

theorem chmodelInit_ok {ch : ChannelModel} (h : chmodelInit bandwidth = .ok ch) :
    mb bandwidth ≠ 0 ∧ ch.maxCredits = bandwidthToMaxCredits bandwidth ∧
      ∀ i, ch.availCredits i = bandwidthToMaxCredits bandwidth % 2 ^ 8 := by
  unfold chmodelInit at h
  obtain ⟨_, hmb, h⟩ := bind_ok.mp h
  cases h
  exact ⟨ensure_ok.mp hmb, rfl, fun _ => rfl⟩

theorem chmodelInit_total (h : mb bandwidth ≠ 0) :
    Total (chmodelInit bandwidth) fun ch => ch.maxCredits = bandwidthToMaxCredits bandwidth := by
  unfold chmodelInit
  rw [ensure_of _ h]
  exact ⟨_, rfl, rfl⟩

/-- Up to the bandwidth at which the product wraps around, the two divisions are one. -/
theorem bandwidthToMaxCredits_eq (h : bandwidth < 2 ^ 32) :
    mb bandwidth = bandwidth * 2 ^ 20 ∧
      bandwidthToMaxCredits bandwidth = bandwidth * 4194304000 / 128000000000 := by
  have hmb : mb bandwidth = bandwidth * 2 ^ 20 := by
    unfold mb
    rw [Nat.shiftLeft_eq, u64_of_lt (by omega)]
  refine ⟨hmb, ?_⟩
  unfold bandwidthToMaxCredits unitTimeInterval unitXferSize unitXferCredits
  rw [hmb, u64_of_lt (by omega), u32_of_lt (by omega)]
  omega

/-- The credits are at most the bandwidth, and less than a unit below it. -/
theorem credits_le_bytes (h : bandwidth < 2 ^ 32) {ch : ChannelModel}
    (hch : ch.maxCredits = bandwidthToMaxCredits bandwidth) :
    ch.creditBytes ≤ bytesPerInterval bandwidth ∧
      bytesPerInterval bandwidth < ch.creditBytes + unitXferSize := by
  have heq := hch.trans (bandwidthToMaxCredits_eq h).2
  have hle : ch.maxCredits * 128000000000 ≤ bandwidth * 4194304000 := by omega
  have hlt : bandwidth * 4194304000 < ch.maxCredits * 128000000000 + 128000000000 := by omega
  have hle' : (ch.maxCredits : ℚ) * 128000000000 ≤ bandwidth * 4194304000 := by exact_mod_cast hle
  have hlt' : (bandwidth : ℚ) * 4194304000 < ch.maxCredits * 128000000000 + 128000000000 := by
    exact_mod_cast hlt
  unfold ChannelModel.creditBytes bytesPerInterval unitXferSize unitTimeInterval
  push_cast
  constructor <;> linarith

/-- Entries of 8 bits hold the credits of less than half a unit more than 7812 MB/s. -/
theorem Faithful.le {ch : ChannelModel} (h : Faithful bandwidth ch)
    (hentry : ∀ i, ch.availCredits i < 2 ^ 8) : bandwidth ≤ 7812 := by
  have hmax : ch.maxCredits ≤ 255 := by
    have h0 := h.entries 0 (by decide)
    have := hentry 0
    omega
  have hmax' : (ch.maxCredits : ℚ) ≤ 255 := by exact_mod_cast hmax
  have hwithin := (abs_le.mp h.within).1
  unfold ChannelModel.creditBytes bytesPerInterval unitXferSize unitTimeInterval at hwithin
  push_cast at hwithin
  have hlt : (bandwidth : ℚ) < 7813 := by linarith
  have hlt' : bandwidth < 7813 := by exact_mod_cast hlt
  omega

theorem chmodelInit_faithful (hlo : 31 ≤ bandwidth) (hhi : bandwidth ≤ 7812) :
    Total (chmodelInit bandwidth) (Faithful bandwidth) := by
  have hlt : bandwidth < 2 ^ 32 := by omega
  obtain ⟨hmb, heq⟩ := bandwidthToMaxCredits_eq hlt
  obtain ⟨ch, hch, hmax⟩ := chmodelInit_total (show mb bandwidth ≠ 0 by omega)
  have hentry := (chmodelInit_ok hch).2.2
  obtain ⟨hle, hgt⟩ := credits_le_bytes hlt hmax
  refine ⟨ch, hch, fun i _ => ?_, by omega, ?_⟩
  · rw [hentry, hmax, Nat.mod_eq_of_lt (by omega)]
  · have hunit : (0 : ℚ) ≤ unitXferSize := Nat.cast_nonneg _
    rw [abs_sub_comm, abs_le]
    constructor <;> linarith only [hle, hgt, hunit]

/-- The bandwidths of the shipped configurations are in the range. -/
theorem chmodelInit_faithful_shipped (h : bandwidth ∈ shippedBandwidths) :
    Total (chmodelInit bandwidth) (Faithful bandwidth) := by
  have hrange : ∀ b ∈ shippedBandwidths, 31 ≤ b ∧ b ≤ 7812 := by decide
  obtain ⟨hlo, hhi⟩ := hrange bandwidth h
  exact chmodelInit_faithful hlo hhi

/-! ## Beyond the range -/

/-- The clock moves on over a channel that no request has used. -/
theorem freshChannel_advance (maxCredits xferLat time : Nat) :
    (freshChannel maxCredits xferLat).advance time =
      .ok { freshChannel maxCredits xferLat with curTime := time } := by
  unfold ChannelModel.advance freshChannel
  simp only [Nat.not_lt_zero, ↓reduceIte]
  simp [ChannelModel.clear, memsetCredits, nrCreditEntries, ensure, nvmevAssert, bind, Except.bind, pure,
    Except.pure]

/-- Below 31 MB/s there are no credits: the first request at the time of the clock divides by 0. -/
theorem slow_channel_divides (hlo : 1 ≤ bandwidth) (hhi : bandwidth ≤ 30) (time length : Nat) :
    Total (chmodelInit bandwidth) fun ch => ch.maxCredits = 0 ∧
      chmodelRequest ch time time length = .error (.divideByZero .chmodelRequest) := by
  obtain ⟨hmb, heq⟩ := bandwidthToMaxCredits_eq (show bandwidth < 2 ^ 32 by omega)
  have hzero : bandwidthToMaxCredits bandwidth = 0 := by omega
  have hinit : chmodelInit bandwidth = .ok (freshChannel 0 (u32 (unitXferSize * 10 ^ 9 / mb bandwidth))) := by
    unfold chmodelInit
    rw [ensure_of _ (show mb bandwidth ≠ 0 by omega), ok_bind]
    unfold bandwidthToMaxCredits at hzero
    rw [hzero]
    rfl
  have hoffs : u32 (sub64 (time / unitTimeInterval) (time / unitTimeInterval)) = 0 := by
    unfold u32 sub64 u64
    omega
  refine ⟨_, hinit, rfl, ?_⟩
  unfold chmodelRequest chmodelLatency
  dsimp only
  rw [freshChannel_advance, ok_bind, if_neg (Nat.lt_irrefl time), hoffs, if_neg (by decide)]
  rfl

/-- From 7813 MB/s on, up to the bandwidth at which the product wraps around, no entry holds all the
credits of an interval. -/
theorem fast_channel_entries (hlo : 7813 ≤ bandwidth) (hhi : bandwidth < 2 ^ 32) :
    Total (chmodelInit bandwidth) fun ch => ∀ i, ch.availCredits i < ch.maxCredits := by
  obtain ⟨hmb, heq⟩ := bandwidthToMaxCredits_eq hhi
  obtain ⟨ch, hch, hmax⟩ := chmodelInit_total (show mb bandwidth ≠ 0 by omega)
  refine ⟨ch, hch, fun i => ?_⟩
  have := (chmodelInit_ok hch).2.2 i
  omega

end

/-- The credits that `chmodel_init` makes of a bandwidth are those of the bandwidth exactly from 31 to 7812
MB/s. -/
theorem bandwidth_faithful_iff (bandwidth : Nat) :
    Total (chmodelInit bandwidth) (Faithful bandwidth) ↔ 31 ≤ bandwidth ∧ bandwidth ≤ 7812 := by
  constructor
  · rintro ⟨ch, hch, h⟩
    obtain ⟨hmb, hmax, hentry⟩ := chmodelInit_ok hch
    have hhi := h.le fun i => by
      rw [hentry]
      exact Nat.mod_lt _ (by decide)
    have hpos := h.pos
    rw [hmax, (bandwidthToMaxCredits_eq (by omega)).2] at hpos
    exact ⟨by omega, hhi⟩
  · rintro ⟨hlo, hhi⟩
    exact chmodelInit_faithful hlo hhi

/-- At 30 MB/s an interval has no credits. At 7813 MB/s it has 256, and each entry of the ring has none. -/
theorem thirty_mb_no_credits :
    (∃ ch, chmodelInit 30 = .ok ch ∧ ch.maxCredits = 0 ∧ ¬ Faithful 30 ch) ∧
      ∃ ch, chmodelInit 7813 = .ok ch ∧ ch.maxCredits = 256 ∧ ch.availCredits 0 = 0 ∧ ¬ Faithful 7813 ch := by
  refine ⟨⟨_, rfl, rfl, fun h => ?_⟩, ⟨_, rfl, rfl, rfl, fun h => ?_⟩⟩
  · exact absurd h.pos (by decide)
  · exact absurd (h.entries 0 (by decide)) (by decide)

end Nvmev
