import NvmeVirt.Ssd.RingInvariant

/-!
# Two transfers from the same state

`chmodel_request` adds to the time of the transfer the slots it had to go past, less `default_delay`, the
slots that the units fill by themselves, rounded down. A longer transfer goes past as many slots or more
(`consumeLoop_delay_mono`), but its `default_delay` can be longer too: where that makes up for the slots,
the longer transfer ends earlier. It does so by no more than the difference of the two default delays
(`longer_transfer_bound`), and not at all when they are the same.
-/

namespace Nvmev

open CInt Function Outcome CreditRing

/-- `NAND_CHANNEL_BANDWIDTH` and `PCIE_BANDWIDTH` of the configurations of `ssd_config.h`, in MB/s. -/
def shippedBandwidths : List Nat := [800, 3360, 3200, 450, 3050]

/-- The bytes of a command with the largest number of blocks. -/
def maxTransfer : Nat := 2 ^ 16 * 512

/-- A channel after a sequence of calls of `chmodel_request`. -/
def ChannelModel.after (ch : ChannelModel) (requests : List ChRequest) : Except Bug ChannelModel :=
  requests.foldlM (fun ch r => do
    let (_, ch) ← chmodelRequest ch r.curTime r.requestTime r.length
    pure ch) ch

/-- `default_delay`: the intervals that the units of a transfer fill. -/
def defaultDelay (maxCredits length : Nat) : Nat := divRoundUp length unitXferSize / maxCredits

/-- How much earlier the transfer of `l₂` bytes may end than the one of `l₁`: the difference of the default
delays, less the one of the transfer times. -/
def earlierBy (maxCredits xferLat l₁ l₂ : Nat) : Nat :=
  unitTimeInterval * (defaultDelay maxCredits l₂ - defaultDelay maxCredits l₁) -
    xferLat * (divRoundUp l₂ unitXferSize - divRoundUp l₁ unitXferSize)

namespace CreditRing

section Loop

variable {head : Nat}

/-- The delay counts the entries that the loop goes on to. -/
theorem consumeLoop_delay_le {fuel pos remaining delay : Nat} {avail : Nat → Nat} {c : Consumed}
    (hc : consumeLoop head fuel pos remaining delay avail = .ok c) (hlt : delay + fuel ≤ 2 ^ 32) :
    delay ≤ c.delay ∧ c.delay < delay + fuel := by
  induction fuel generalizing pos remaining delay avail with
  | zero => cases hc
  | succ fuel ih =>
    unfold consumeLoop at hc
    dsimp only at hc
    generalize (if remaining ≤ avail pos then remaining else avail pos) = taken at hc
    have hstop : ∀ {p : Nat} {a : Nat → Nat}, (.ok { pos := p, delay, availCredits := a } : Except Bug _) =
        .ok c → delay ≤ c.delay ∧ c.delay < delay + (fuel + 1) := by
      rintro p a ⟨⟩
      dsimp only
      omega
    split at hc
    · split at hc
      · obtain rfl | hfuel := Nat.eq_zero_or_pos fuel
        · cases hc
        rw [u32_of_lt (by omega)] at hc
        have := ih hc (by omega)
        omega
      · exact hstop hc
    · exact hstop hc

/-- With more units, the loop does not stop at an earlier entry. -/
theorem consumeLoop_delay_mono {fuel pos r₁ r₂ delay : Nat} {avail : Nat → Nat} {c₁ c₂ : Consumed}
    (hle : r₁ ≤ r₂) (h₁ : consumeLoop head fuel pos r₁ delay avail = .ok c₁)
    (h₂ : consumeLoop head fuel pos r₂ delay avail = .ok c₂) (hlt : delay + fuel ≤ 2 ^ 32) :
    c₁.delay ≤ c₂.delay := by
  induction fuel generalizing pos r₁ r₂ delay avail with
  | zero => cases h₁
  | succ fuel ih =>
    have hge := (consumeLoop_delay_le h₂ hlt).1
    unfold consumeLoop at h₁ h₂
    dsimp only at h₁ h₂
    by_cases hfit : r₁ ≤ avail pos
    · -- the first transfer ends at this entry
      rw [if_pos hfit, Nat.sub_self, if_neg (by simp)] at h₁
      cases h₁
      exact hge
    · -- both take all its credits
      have hfit₂ : ¬ r₂ ≤ avail pos := by omega
      rw [if_neg hfit, if_pos (by omega)] at h₁
      rw [if_neg hfit₂, if_pos (by omega)] at h₂
      split at h₁
      · rename_i hnext
        rw [if_pos hnext] at h₂
        obtain rfl | hfuel := Nat.eq_zero_or_pos fuel
        · cases h₁
        rw [u32_of_lt (by omega)] at h₁ h₂
        exact ih (by omega) h₁ h₂ (by omega)
      · cases h₁
        exact hge

end Loop

/-! ## The time of a request -/

theorem totalLatency_eq (maxCredits : Nat) {xferLat units delay : Nat} (hx : xferLat * units < 2 ^ 29)
    (hd : delay < 2 ^ 17) : totalLatency xferLat maxCredits units delay =
      xferLat * units + (delay - units / maxCredits) * unitTimeInterval := by
  unfold totalLatency
  generalize units / maxCredits = q
  have hsub : (if q < delay then delay - q else 0) = delay - q := by
    split <;> omega
  have hlt : (delay - q) * unitTimeInterval ≤ 2 ^ 17 * 4000 := Nat.mul_le_mul_right _ (by omega)
  rw [hsub, u32_of_lt (by omega), u64_of_lt (by omega)]

theorem totalLatency_lt (maxCredits : Nat) {xferLat units delay : Nat} (hx : xferLat * units < 2 ^ 29)
    (hd : delay ≤ nrCreditEntries) : totalLatency xferLat maxCredits units delay < 2 ^ 30 := by
  have hN : delay ≤ 98304 := hd
  rw [totalLatency_eq maxCredits hx (by omega)]
  have hlt : (delay - units / maxCredits) * unitTimeInterval ≤ 98304 * 4000 :=
    Nat.mul_le_mul_right _ ((Nat.sub_le _ _).trans hN)
  omega

/-- The time of a longer transfer that goes past as many slots or more. -/
theorem totalLatency_le (maxCredits : Nat) {xferLat l₁ l₂ d₁ d₂ : Nat} (hle : l₁ ≤ l₂) (hd : d₁ ≤ d₂)
    (hx : xferLat * divRoundUp l₂ unitXferSize < 2 ^ 29) (hd₂ : d₂ < 2 ^ 17) :
    totalLatency xferLat maxCredits (divRoundUp l₁ unitXferSize) d₁ ≤
      totalLatency xferLat maxCredits (divRoundUp l₂ unitXferSize) d₂ +
        earlierBy maxCredits xferLat l₁ l₂ := by
  have hunits : divRoundUp l₁ unitXferSize ≤ divRoundUp l₂ unitXferSize :=
    Nat.div_le_div_right (by unfold unitXferSize; omega)
  have hxle : xferLat * divRoundUp l₁ unitXferSize ≤ xferLat * divRoundUp l₂ unitXferSize :=
    Nat.mul_le_mul_left _ hunits
  have hq : divRoundUp l₁ unitXferSize / maxCredits ≤ divRoundUp l₂ unitXferSize / maxCredits :=
    Nat.div_le_div_right hunits
  rw [totalLatency_eq maxCredits (by omega) (by omega), totalLatency_eq maxCredits hx hd₂]
  unfold earlierBy defaultDelay unitTimeInterval
  rw [Nat.mul_sub xferLat]
  generalize divRoundUp l₁ unitXferSize / maxCredits = q₁ at hq ⊢
  generalize divRoundUp l₂ unitXferSize / maxCredits = q₂ at hq ⊢
  omega

variable {maxCredits : Nat} {ch : ChannelModel}

/-- Two transfers at the same time from the same state. -/
theorem RingInv.longer (h : RingInv maxCredits ch) (hpos : 0 < maxCredits) (hlt : maxCredits < 2 ^ 8)
    {curTime requestTime l₁ l₂ : Nat} (hclock : curTime ≤ requestTime)
    (htime : requestTime + 2 ^ 30 ≤ 2 ^ 64) (hle : l₁ ≤ l₂) (hl : l₂ < 2 ^ 32)
    (hx : ch.xferLat * divRoundUp l₂ unitXferSize < 2 ^ 29) :
    ∃ t₁ t₂ ch₁ ch₂, chmodelRequest ch curTime requestTime l₁ = .ok (t₁, ch₁) ∧
      chmodelRequest ch curTime requestTime l₂ = .ok (t₂, ch₂) ∧
      t₁ ≤ t₂ + earlierBy maxCredits ch.xferLat l₁ l₂ := by
  let r (l : Nat) (hl : l < 2 ^ 32) : ChRequest :=
    { curTime, requestTime, length := l, curTime_lt := by omega, requestTime_lt := by omega
      length_lt := hl }
  obtain ⟨a₁, ch₁, hadv₁, -, -, hcase₁⟩ := h.request_cases hpos hlt (r l₁ (by omega))
  obtain ⟨a₂, ch₂, hadv₂, -, -, hcase₂⟩ := h.request_cases hpos hlt (r l₂ hl)
  obtain rfl : a₁ = a₂ := by
    rw [show (r l₁ (by omega)).curTime = (r l₂ hl).curTime from rfl, hadv₂] at hadv₁
    exact (Except.ok.inj hadv₁).symm
  obtain ⟨hearly₁, hreq₁⟩ | ⟨hlate₁, c₁, hc₁, hreq₁, -⟩ := hcase₁
  · obtain ⟨-, hreq₂⟩ | ⟨hlate₂, -⟩ := hcase₂
    · exact ⟨_, _, _, _, hreq₁, hreq₂, Nat.le_add_right _ _⟩
    · exact absurd hearly₁ hlate₂
  · obtain ⟨hearly₂, -⟩ | ⟨-, c₂, hc₂, hreq₂, -⟩ := hcase₂
    · exact absurd hearly₂ hlate₁
    refine ⟨_, _, _, _, hreq₁, hreq₂, ?_⟩
    have hunits : divRoundUp l₁ unitXferSize ≤ divRoundUp l₂ unitXferSize :=
      Nat.div_le_div_right (by unfold unitXferSize; omega)
    have hx₁ : ch.xferLat * divRoundUp l₁ unitXferSize < 2 ^ 29 :=
      Nat.lt_of_le_of_lt (Nat.mul_le_mul_left _ hunits) hx
    have hN : nrCreditEntries = 98304 := rfl
    have hd₁ := (consumeLoop_delay_le hc₁ (by omega)).2
    have hd₂ := (consumeLoop_delay_le hc₂ (by omega)).2
    have hmono : c₁.delay ≤ c₂.delay := consumeLoop_delay_mono hunits hc₁ hc₂ (by omega)
    have hbound := totalLatency_le maxCredits hle hmono hx (by omega)
    have ht₁ := totalLatency_lt maxCredits hx₁ (show c₁.delay ≤ nrCreditEntries by omega)
    have ht₂ := totalLatency_lt maxCredits hx (show c₂.delay ≤ nrCreditEntries by omega)
    change u64 (requestTime + totalLatency ch.xferLat maxCredits (divRoundUp l₁ unitXferSize) c₁.delay) ≤
      u64 (requestTime + totalLatency ch.xferLat maxCredits (divRoundUp l₂ unitXferSize) c₂.delay) + _
    rw [u64_of_lt (by omega), u64_of_lt (by omega)]
    omega

/-- The channels of the shipped configurations. -/
theorem chmodelInit_shipped {bandwidth : Nat} (hb : bandwidth ∈ shippedBandwidths) {ch₀ : ChannelModel}
    (hinit : chmodelInit bandwidth = .ok ch₀) :
    ∃ maxCredits xferLat, ch₀ = freshChannel maxCredits xferLat ∧ 0 < maxCredits ∧ maxCredits < 2 ^ 8 ∧
      xferLat ≤ 271 := by
  simp only [shippedBandwidths, List.mem_cons, List.not_mem_nil, or_false] at hb
  obtain rfl | rfl | rfl | rfl | rfl := hb <;> cases hinit <;>
    exact ⟨_, _, rfl, by decide, by decide, by decide⟩

theorem RingInv.after {xferLat : Nat} (hpos : 0 < maxCredits) (hlt : maxCredits < 2 ^ 8)
    (requests : List ChRequest) : Partial ((freshChannel maxCredits xferLat).after requests)
      fun ch => RingInv maxCredits ch ∧ ch.xferLat = xferLat := by
  refine Partial.foldlM ⟨ringInv_fresh hlt, rfl⟩ fun ch hch r _ => ?_
  obtain ⟨-, time, ch', -, hreq, ⟨hinv, hxfer⟩, -⟩ := hch.1.request hpos hlt r
  rw [hreq]
  exact .ret ⟨hinv, hxfer.trans hch.2⟩

end CreditRing

/-- Every channel of a shipped bandwidth after any requests, and two transfers at the same reading of the
clock and the same time, not before it, of lengths up to the largest one of NVMe: the shorter one ends at
most `earlierBy` after the longer one, and not after it if both have the same default delay. -/
theorem longer_transfer_bound {bandwidth : Nat} (hb : bandwidth ∈ shippedBandwidths)
    {ch₀ ch : ChannelModel} (hinit : chmodelInit bandwidth = .ok ch₀) (requests : List ChRequest)
    (hrun : ch₀.after requests = .ok ch) {curTime requestTime l₁ l₂ : Nat}
    (hclock : curTime ≤ requestTime) (htime : requestTime + 2 ^ 30 ≤ 2 ^ 64) (hle : l₁ ≤ l₂)
    (hmax : l₂ ≤ maxTransfer) :
    ∃ t₁ t₂ ch₁ ch₂, chmodelRequest ch curTime requestTime l₁ = .ok (t₁, ch₁) ∧
      chmodelRequest ch curTime requestTime l₂ = .ok (t₂, ch₂) ∧
      t₁ ≤ t₂ + earlierBy ch.maxCredits ch.xferLat l₁ l₂ ∧
      (defaultDelay ch.maxCredits l₁ = defaultDelay ch.maxCredits l₂ → t₁ ≤ t₂) := by
  obtain ⟨maxCredits, xferLat, rfl, hpos, hlt, hlat⟩ := chmodelInit_shipped hb hinit
  obtain ⟨hinv, rfl⟩ := RingInv.after hpos hlt requests ch hrun
  have hl : l₂ ≤ 33554432 := hmax
  have hunits : divRoundUp l₂ unitXferSize ≤ 2 ^ 18 := by
    unfold divRoundUp unitXferSize
    omega
  have hx : ch.xferLat * divRoundUp l₂ unitXferSize < 2 ^ 29 :=
    Nat.lt_of_le_of_lt (Nat.mul_le_mul hlat hunits) (by decide)
  obtain ⟨t₁, t₂, ch₁, ch₂, hreq₁, hreq₂, hbound⟩ := hinv.longer hpos hlt hclock htime hle (by omega) hx
  rw [← hinv.maxCredits_eq] at hbound
  refine ⟨t₁, t₂, ch₁, ch₂, hreq₁, hreq₂, hbound, fun hsame => ?_⟩
  unfold earlierBy at hbound
  rw [hsame, Nat.sub_self, Nat.mul_zero, Nat.zero_sub, Nat.add_zero] at hbound
  exact hbound

/-- A NAND channel of 800 MB/s, 26 units an interval, after a transfer of two units. -/
theorem longer_transfer_bound_shipped :
    ∃ ch₀ ch t₁ t₂ ch₁ ch₂, chmodelInit 800 = .ok ch₀ ∧
      ch₀.after [{ curTime := 0, requestTime := 0, length := 256 }] = .ok ch ∧
      chmodelRequest ch 0 0 4096 = .ok (t₁, ch₁) ∧ chmodelRequest ch 0 0 16384 = .ok (t₂, ch₂) ∧
      t₁ ≤ t₂ + earlierBy ch.maxCredits ch.xferLat 4096 16384 ∧
      (defaultDelay ch.maxCredits 4096 = defaultDelay ch.maxCredits 16384 → t₁ ≤ t₂) := by
  obtain ⟨t₁, t₂, ch₁, ch₂, h⟩ := longer_transfer_bound
    (show 800 ∈ shippedBandwidths by decide) rfl
    [{ curTime := 0, requestTime := 0, length := 256 }] rfl (Nat.le_refl 0) (by decide)
    (show 4096 ≤ 16384 by decide) (by decide)
  exact ⟨_, _, t₁, t₂, ch₁, ch₂, rfl, rfl, h⟩

/-- From this state the transfer of 25 units goes on to the second slot and has no default delay, and the
one of 26 units has a default delay of one slot: it ends 3848 ns earlier. -/
theorem longer_transfer_earlier :
    ∃ ch₀ ch t₁ t₂ ch₁ ch₂, chmodelInit 800 = .ok ch₀ ∧
      ch₀.after [{ curTime := 0, requestTime := 0, length := 256 }] = .ok ch ∧
      chmodelRequest ch 0 0 3200 = .ok (t₁, ch₁) ∧ chmodelRequest ch 0 0 3328 = .ok (t₂, ch₂) ∧
      t₁ = 7800 ∧ t₂ = 3952 ∧ ¬ t₁ ≤ t₂ ∧ t₁ = t₂ + earlierBy ch.maxCredits ch.xferLat 3200 3328 :=
  ⟨_, _, _, _, _, _, rfl, rfl, rfl, rfl, rfl, rfl, by decide, rfl⟩

end Nvmev
