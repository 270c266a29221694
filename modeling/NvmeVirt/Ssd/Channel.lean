import NvmeVirt.Lib.PhaseRing
import NvmeVirt.Lib.SlotSchedule
import NvmeVirt.Nvme

/-!
# The channel model

`channel_model.c`: a channel transfers `max_credits` units in each interval of time. The credits of the
next `NR_CREDIT_ENTRIES` intervals are in a ring; `head` is the one of `cur_time`, and the entries that
are not among the `valid_len` after it have all their credits.

`Rep` says that a ring holds what a schedule of absolute slots leaves free. `advance_rep`,
`consumeLoop_spec` and `chmodelLatency_rep` are the steps of a request: the head moves to the clock, the
units are consumed greedily, and the ring holds the new schedule.
-/

namespace Nvmev

open CInt Function Outcome SlotSchedule

/-- `NR_CREDIT_ENTRIES`. -/
def nrCreditEntries : Nat := 1024 * 96

/-- `UNIT_TIME_INTERVAL`. -/
def unitTimeInterval : Nat := 4000

/-- `UNIT_XFER_SIZE`. -/
def unitXferSize : Nat := 128

/-- `UNIT_XFER_CREDITS`. -/
def unitXferCredits : Nat := 1

/-- `struct channel_model`. -/
structure ChannelModel where
  curTime : Nat
  head : Nat
  validLen : Nat
  maxCredits : Nat
  commandCredits : Nat
  xferLat : Nat
  availCredits : Nat → Nat

/-- What `chmodel_init` leaves of a channel with `max_credits` and `xfer_lat`. An entry has 8 bits. -/
def freshChannel (maxCredits xferLat : Nat) : ChannelModel where
  curTime := 0
  head := 0
  validLen := 0
  maxCredits
  commandCredits := 0
  xferLat
  availCredits _ := maxCredits % 2 ^ 8

/-- `MB(b)`. -/
def mb (b : Nat) : Nat := u64 (b <<< 20)

/-- `chmodel_init`, with `BANDWIDTH_TO_MAX_CREDITS` and `BANDWIDTH_TO_TX_TIME`. -/
def chmodelInit (bandwidth : Nat) : Except Bug ChannelModel := do
  Outcome.ensure (mb bandwidth ≠ 0) (.divideByZero .chmodelInit)
  pure (freshChannel
    (u32 (u64 (mb bandwidth * unitTimeInterval) / 10 ^ 9 / unitXferSize * unitXferCredits))
    (u32 (unitXferSize * 10 ^ 9 / mb bandwidth)))

/-- `MEMSET(&avail_credits[start], value, length)`. -/
def memsetCredits (a : Nat → Nat) (start value length : Nat) : Except Bug (Nat → Nat) := do
  Outcome.ensure (start + length ≤ nrCreditEntries) (.outOfBounds .chmodelRequest)
  pure fun i => if start ≤ i ∧ i < start + length then value % 2 ^ 8 else a i

/-- The entries from `head` on that `curTimeOffs` passes get their credits back. -/
def ChannelModel.clear (ch : ChannelModel) (curTimeOffs : Nat) : Except Bug (Nat → Nat) :=
  if nrCreditEntries ≤ ch.head + curTimeOffs then do
    let a ← memsetCredits ch.availCredits ch.head ch.maxCredits (nrCreditEntries - ch.head)
    memsetCredits a 0 ch.maxCredits (curTimeOffs - (nrCreditEntries - ch.head))
  else memsetCredits ch.availCredits ch.head ch.maxCredits curTimeOffs

/-- The first part of `chmodel_request`: move `head` to the clock. `cur_time_offs` has 32 bits. -/
def ChannelModel.advance (ch : ChannelModel) (curTime : Nat) : Except Bug ChannelModel := do
  let curTimeOffs := u32 (sub64 (curTime / unitTimeInterval) (ch.curTime / unitTimeInterval))
  let curTimeOffs := if curTimeOffs < ch.validLen then curTimeOffs else ch.validLen
  let availCredits ← ch.clear curTimeOffs
  let validLen := ch.validLen - curTimeOffs
  nvmevAssert (validLen ≤ nrCreditEntries) .chmodelRequest
  pure { ch with availCredits, head := (ch.head + curTimeOffs) % nrCreditEntries, curTime, validLen }

/-- What the loop of `chmodel_request` leaves. -/
structure Consumed where
  pos : Nat
  delay : Nat
  availCredits : Nat → Nat

/-- The loop of `chmodel_request`. It ends when it comes back to `head`, if not before. -/
def consumeLoop (head : Nat) : Nat → Nat → Nat → Nat → (Nat → Nat) → Except Bug Consumed
  | 0, _, _, _, _ => .error (.endlessLoop .chmodelRequest)
  | fuel + 1, pos, remainingCredits, delay, availCredits =>
    let consumedCredits :=
      if remainingCredits ≤ availCredits pos then remainingCredits else availCredits pos
    let availCredits := update availCredits pos (availCredits pos - consumedCredits)
    let remainingCredits := remainingCredits - consumedCredits
    if remainingCredits ≠ 0 then
      let nextPos := (pos + 1) % nrCreditEntries
      if nextPos ≠ head then
        consumeLoop head fuel nextPos remainingCredits (u32 (delay + 1)) availCredits
      else .ok { pos, delay, availCredits }
    else .ok { pos, delay, availCredits }

/-- `units_to_xfer`. -/
def unitsToXfer (length : Nat) : Nat := u32 (u64 (length + (unitXferSize - 1)) / unitXferSize)

/-- `chmodel_request` up to its return values, with the clock reading `curTime`: `total_latency`, which is 0
at the early returns of `request_time`, and the new state. -/
def chmodelLatency (ch : ChannelModel) (curTime requestTime length : Nat) :
    Except Bug (Nat × ChannelModel) := do
  let units := unitsToXfer length
  let ch ← ch.advance curTime
  if requestTime < curTime then pure (0, ch)
  else
    let requestTimeOffs := u32 (sub64 (requestTime / unitTimeInterval) (curTime / unitTimeInterval))
    if nrCreditEntries ≤ requestTimeOffs then pure (0, ch)
    else
      let pos := (ch.head + requestTimeOffs) % nrCreditEntries
      let remainingCredits := u32 (u32 (units * unitXferCredits) + ch.commandCredits)
      Outcome.ensure (ch.maxCredits ≠ 0) (.divideByZero .chmodelRequest)
      let defaultDelay := remainingCredits / ch.maxCredits
      let c ← consumeLoop ch.head nrCreditEntries pos remainingCredits 0 ch.availCredits
      let validLength :=
        if ch.head ≤ c.pos then c.pos - ch.head + 1 else nrCreditEntries - (ch.head - c.pos - 1)
      let delay := if defaultDelay < c.delay then c.delay - defaultDelay else 0
      let totalLatency := u64 (u32 (ch.xferLat * units) + delay * unitTimeInterval)
      pure (totalLatency, { ch with
        availCredits := c.availCredits
        validLen := if ch.validLen < validLength then validLength else ch.validLen })

/-- `chmodel_request`: the time of the end of the transfer. -/
def chmodelRequest (ch : ChannelModel) (curTime requestTime length : Nat) :
    Except Bug (Nat × ChannelModel) := do
  let (totalLatency, ch) ← chmodelLatency ch curTime requestTime length
  pure (u64 (requestTime + totalLatency), ch)

/-! ## Positions in the ring -/

section Positions

variable {head j k : Nat}

/-- Entry `k` after `head`. -/
theorem entry_eq (hhead : head < nrCreditEntries) (hk : k < nrCreditEntries) :
    (head + k) % nrCreditEntries =
      if head + k < nrCreditEntries then head + k else head + k - nrCreditEntries := by
  split
  · exact Nat.mod_eq_of_lt ‹_›
  · rw [Nat.mod_eq_sub_mod (by omega), Nat.mod_eq_of_lt (by omega)]

theorem entry_inj (hj : j < nrCreditEntries) (hk : k < nrCreditEntries)
    (h : (head + j) % nrCreditEntries = (head + k) % nrCreditEntries) : j = k := by
  obtain hle | hle := Nat.le_total j k
  · have := PhaseRing.eq_of_mod_eq h (by omega) (by omega)
    omega
  · have := PhaseRing.eq_of_mod_eq h.symm (by omega) (by omega)
    omega

theorem entry_succ : ((head + j) % nrCreditEntries + 1) % nrCreditEntries =
    (head + (j + 1)) % nrCreditEntries := by
  rw [Nat.mod_add_mod, Nat.add_assoc]

/-- The loop is back at `head` exactly after the last entry. -/
theorem entry_eq_head (hhead : head < nrCreditEntries) (hj : j < nrCreditEntries) :
    (head + (j + 1)) % nrCreditEntries = head ↔ j + 1 = nrCreditEntries := by
  constructor
  · intro h
    by_contra hne
    have h0 : (head + (j + 1)) % nrCreditEntries = (head + 0) % nrCreditEntries := by
      rw [h, Nat.add_zero, Nat.mod_eq_of_lt hhead]
    have := entry_inj (by omega) (by omega) h0
    omega
  · intro h
    rw [h, Nat.add_mod_right, Nat.mod_eq_of_lt hhead]

/-- `valid_length`: the number of entries from `head` to entry `j`. -/
theorem validLength_eq (hhead : head < nrCreditEntries) (hj : j < nrCreditEntries) :
    (if head ≤ (head + j) % nrCreditEntries then (head + j) % nrCreditEntries - head + 1
      else nrCreditEntries - (head - (head + j) % nrCreditEntries - 1)) = j + 1 := by
  rw [entry_eq hhead hj]
  split <;> split <;> omega

/-- Clearing restores the entries that are passed, and no others. -/
theorem clear_spec {ch : ChannelModel} {n : Nat} (hhead : ch.head < nrCreditEntries)
    (hn : n ≤ nrCreditEntries) : ∃ a, ch.clear n = .ok a ∧ ∀ k < nrCreditEntries,
      a ((ch.head + k) % nrCreditEntries) = if k < n then ch.maxCredits % 2 ^ 8
        else ch.availCredits ((ch.head + k) % nrCreditEntries) := by
  unfold ChannelModel.clear memsetCredits
  split
  · rw [ensure_of _ (by omega), ok_bind, ensure_of _ (by omega)]
    refine ⟨_, rfl, fun k hk => ?_⟩
    rw [entry_eq hhead hk]
    dsimp only
    split_ifs <;> first | rfl | omega
  · rw [ensure_of _ (by omega)]
    refine ⟨_, rfl, fun k hk => ?_⟩
    rw [entry_eq hhead hk]
    split_ifs <;> first | rfl | omega

end Positions

/-! ## Requests return -/

/-- The ring is well formed: `head` and `valid_len` are in range, and the division by `max_credits` is
defined. -/
structure RingOk (ch : ChannelModel) : Prop where
  head_lt : ch.head < nrCreditEntries
  validLen_le : ch.validLen ≤ nrCreditEntries
  maxCredits_pos : 0 < ch.maxCredits

theorem advance_ok {ch : ChannelModel} (h : RingOk ch) (curTime : Nat) :
    Total (ch.advance curTime) RingOk := by
  have hhead := h.head_lt
  have hvalid := h.validLen_le
  unfold ChannelModel.advance
  dsimp only
  generalize u32 (sub64 (curTime / unitTimeInterval) (ch.curTime / unitTimeInterval)) = offs
  obtain ⟨a, hclear, -⟩ := clear_spec (n := if offs < ch.validLen then offs else ch.validLen) hhead
    (by split <;> omega)
  rw [hclear, ok_bind]
  unfold nvmevAssert
  rw [ensure_of _ (by omega)]
  refine .ret ⟨Nat.mod_lt _ (Nat.zero_lt_of_lt hhead), ?_, h.maxCredits_pos⟩
  dsimp only
  omega

/-- The loop comes back to `head` after the last entry. -/
theorem consumeLoop_ok {head fuel : Nat} (j remaining delay : Nat) (avail : Nat → Nat)
    (hhead : head < nrCreditEntries) (hj : j < nrCreditEntries) (hfuel : nrCreditEntries - j ≤ fuel) :
    Total (consumeLoop head fuel ((head + j) % nrCreditEntries) remaining delay avail) fun c =>
      ∃ last < nrCreditEntries, c.pos = (head + last) % nrCreditEntries := by
  induction fuel generalizing j remaining delay avail with
  | zero => omega
  | succ fuel ih =>
    unfold consumeLoop
    dsimp only
    generalize (if remaining ≤ avail ((head + j) % nrCreditEntries) then remaining
      else avail ((head + j) % nrCreditEntries)) = taken
    split
    · rw [entry_succ]
      split
      · rename_i hnext
        have hlast : j + 1 ≠ nrCreditEntries := fun he => hnext ((entry_eq_head hhead hj).mpr he)
        exact ih (j + 1) _ _ _ (by omega) (by omega)
      · exact .ret ⟨j, hj, rfl⟩
    · exact .ret ⟨j, hj, rfl⟩

/-- A request returns, whatever the clock, the times and the length. -/
theorem chmodelLatency_ok {ch : ChannelModel} (h : RingOk ch) (curTime requestTime length : Nat) :
    Total (chmodelLatency ch curTime requestTime length) fun r => RingOk r.2 := by
  unfold chmodelLatency
  dsimp only
  refine (advance_ok h curTime).bind fun ch₁ h₁ => ?_
  split
  · exact .ret h₁
  split
  · exact .ret h₁
  rename_i hfit
  refine (Total.ensure (Nat.ne_of_gt h₁.maxCredits_pos)).bind fun _ _ => ?_
  refine (consumeLoop_ok _ _ _ _ h₁.head_lt (Nat.lt_of_not_le hfit) (Nat.sub_le _ _)).bind
    fun c ⟨last, hlast, hpos⟩ => .ret ⟨h₁.head_lt, ?_, h₁.maxCredits_pos⟩
  have hlen := validLength_eq h₁.head_lt hlast
  have hvalid := h₁.validLen_le
  rw [← hpos] at hlen
  dsimp only
  rw [hlen]
  split <;> omega

/-! ## The ring and the schedule -/

/-- The slot of the clock. -/
def ChannelModel.slot (ch : ChannelModel) : Nat := ch.curTime / unitTimeInterval

/-- The ring has the credits that the schedule `used` leaves in the slots from the clock on, and the
schedule uses none past `valid_len`. -/
structure Rep (ch : ChannelModel) (used : Nat → Nat) : Prop where
  head_lt : ch.head < nrCreditEntries
  validLen_le : ch.validLen ≤ nrCreditEntries
  maxCredits_pos : 0 < ch.maxCredits
  maxCredits_lt : ch.maxCredits < 2 ^ 8
  used_le : ∀ x, used x ≤ ch.maxCredits
  credits : ∀ k < nrCreditEntries,
    ch.availCredits ((ch.head + k) % nrCreditEntries) = ch.maxCredits - used (ch.slot + k)
  beyond : ∀ k, ch.validLen ≤ k → used (ch.slot + k) = 0

/-- A request of the schedule: `units` from the slot of `requestTime` on, as far as the slots of the ring go
from the clock. A request before the clock or past the ring takes nothing. -/
def scheduleRequest (cap : Nat) (used : Nat → Nat) (curTime requestTime units : Nat) : Nat → Nat :=
  let ahead := requestTime / unitTimeInterval - curTime / unitTimeInterval
  if requestTime < curTime ∨ nrCreditEntries ≤ ahead then used
  else consume cap (nrCreditEntries - ahead) (requestTime / unitTimeInterval) units used

/-- The parameters that no request changes. -/
structure SameParams (ch ch' : ChannelModel) : Prop where
  maxCredits : ch'.maxCredits = ch.maxCredits
  commandCredits : ch'.commandCredits = ch.commandCredits
  xferLat : ch'.xferLat = ch.xferLat

section Requests

variable {ch : ChannelModel} {used : Nat → Nat}

theorem rep_fresh {maxCredits xferLat : Nat} (hpos : 0 < maxCredits) (hlt : maxCredits < 2 ^ 8) :
    Rep (freshChannel maxCredits xferLat) fun _ => 0 where
  head_lt := Nat.zero_lt_succ _
  validLen_le := Nat.zero_le _
  maxCredits_pos := hpos
  maxCredits_lt := hlt
  used_le _ := Nat.zero_le _
  credits _ _ := Nat.mod_eq_of_lt hlt
  beyond _ _ := rfl

/-- The clock goes on by `gap` slots. The 32 bits of `cur_time_offs` hold it, or the slots that they leave
in the ring are not used. -/
theorem advance_rep (h : Rep ch used) {curTime : Nat} (hle : ch.curTime ≤ curTime) (hlt : curTime < 2 ^ 64)
    (hgap : curTime / unitTimeInterval - ch.slot < 2 ^ 32 ∨
      ∀ k, u32 (curTime / unitTimeInterval - ch.slot) ≤ k → used (ch.slot + k) = 0) :
    ∃ ch', ch.advance curTime = .ok ch' ∧ Rep ch' used ∧ ch'.curTime = curTime ∧ SameParams ch ch' := by
  have hslot : ch.slot ≤ curTime / unitTimeInterval := Nat.div_le_div_right hle
  have hbound : curTime / unitTimeInterval < 2 ^ 64 := Nat.lt_of_le_of_lt (Nat.div_le_self _ _) hlt
  have hhead := h.head_lt
  have hvalid := h.validLen_le
  unfold ChannelModel.advance
  rw [show ch.curTime / unitTimeInterval = ch.slot from rfl, sub64_of_le hslot hbound]
  generalize hd : curTime / unitTimeInterval - ch.slot = gap at hgap ⊢
  have hbase : curTime / unitTimeInterval = ch.slot + gap := by omega
  -- `t` slots leave the ring; those that stay have what the schedule has `gap` slots later
  obtain ⟨t, ht, htv, htg, hstay⟩ : ∃ t, (if u32 gap < ch.validLen then u32 gap else ch.validLen) = t ∧
      t ≤ ch.validLen ∧ t ≤ gap ∧ ∀ k, used (ch.slot + (t + k)) = used (ch.slot + (gap + k)) := by
    have hmod : u32 gap ≤ gap := Nat.mod_le _ _
    split
    · rename_i hlen
      refine ⟨u32 gap, rfl, Nat.le_of_lt hlen, hmod, fun k => ?_⟩
      obtain hsmall | hfree := hgap
      · rw [u32_of_lt hsmall]
      · rw [hfree _ (Nat.le_add_right _ _), hfree _ (Nat.le_add_right_of_le hmod)]
    · rename_i hlen
      refine ⟨ch.validLen, rfl, Nat.le_refl _, by omega, fun k => ?_⟩
      rw [h.beyond _ (Nat.le_add_right _ _), h.beyond _ (by omega)]
  obtain ⟨a, hclear, ha⟩ := clear_spec hhead (Nat.le_trans htv hvalid)
  dsimp only
  rw [ht, hclear, ok_bind]
  unfold nvmevAssert
  rw [ensure_of _ (by omega), ok_bind]
  refine ⟨_, rfl, ?_, rfl, ⟨rfl, rfl, rfl⟩⟩
  refine ⟨Nat.mod_lt _ (by decide), by dsimp only; omega, h.maxCredits_pos, h.maxCredits_lt, h.used_le,
    fun k hk => ?_, fun k hk => ?_⟩
  · unfold ChannelModel.slot
    dsimp only
    rw [hbase, Nat.mod_add_mod, Nat.add_assoc ch.slot, ← hstay, Nat.add_assoc]
    by_cases hin : t + k < nrCreditEntries
    · rw [ha _ hin, if_neg (by omega), h.credits _ hin]
    · -- an entry that was passed is the one of a slot past the end of the ring
      rw [h.beyond _ (by omega), Nat.sub_zero, show ch.head + (t + k) =
        ch.head + (t + k - nrCreditEntries) + nrCreditEntries by omega, Nat.add_mod_right, ha _ (by omega),
        if_pos (by omega), Nat.mod_eq_of_lt h.maxCredits_lt]
  · unfold ChannelModel.slot
    dsimp only at hk ⊢
    rw [hbase, Nat.add_assoc, ← hstay]
    exact h.beyond _ (by omega)

/-- The loop from entry `j` consumes greedily from slot `base + j` to the end of the ring. It ends at an
entry `last`, past which nothing is consumed. -/
theorem consumeLoop_spec {head cap base fuel : Nat} (j remaining delay : Nat) {avail : Nat → Nat}
    (hhead : head < nrCreditEntries) (hj : j < nrCreditEntries) (hfuel : nrCreditEntries - j ≤ fuel)
    (hle : ∀ x, used x ≤ cap)
    (hcred : ∀ k < nrCreditEntries, avail ((head + k) % nrCreditEntries) = cap - used (base + k)) :
    ∃ c last, consumeLoop head fuel ((head + j) % nrCreditEntries) remaining delay avail = .ok c ∧
      j ≤ last ∧ last < nrCreditEntries ∧ c.pos = (head + last) % nrCreditEntries ∧
      (∀ k < nrCreditEntries, c.availCredits ((head + k) % nrCreditEntries) =
        cap - consume cap (nrCreditEntries - j) (base + j) remaining used (base + k)) ∧
      ∀ k, last < k →
        consume cap (nrCreditEntries - j) (base + j) remaining used (base + k) = used (base + k) := by
  induction fuel generalizing j remaining delay avail used with
  | zero => omega
  | succ fuel ih =>
    obtain ⟨m, hm⟩ : ∃ m, nrCreditEntries - j = m + 1 := ⟨nrCreditEntries - j - 1, by omega⟩
    have hmin : (if remaining ≤ avail ((head + j) % nrCreditEntries) then remaining
        else avail ((head + j) % nrCreditEntries)) = min remaining (cap - used (base + j)) := by
      rw [hcred j hj]
      split <;> omega
    unfold consumeLoop
    dsimp only
    rw [hmin, hm, consume, hcred j hj]
    have htaken : min remaining (cap - used (base + j)) ≤ cap - used (base + j) := Nat.min_le_right _ _
    generalize min remaining (cap - used (base + j)) = taken at htaken ⊢
    -- the entry and the slot after the turn
    have hcred' : ∀ k < nrCreditEntries, update avail ((head + j) % nrCreditEntries)
        (cap - used (base + j) - taken) ((head + k) % nrCreditEntries) =
          cap - update used (base + j) (used (base + j) + taken) (base + k) := by
      intro k hk
      by_cases hkj : k = j
      · subst hkj
        rw [update_self, update_self]
        omega
      · rw [update_of_ne fun he => hkj (entry_inj hk hj he), update_of_ne (by omega), hcred k hk]
    have hle' : ∀ x, update used (base + j) (used (base + j) + taken) x ≤ cap := by
      intro x
      by_cases hx : x = base + j
      · subst hx
        rw [update_self]
        have := hle (base + j)
        omega
      · rw [update_of_ne hx]
        exact hle x
    have hpast : ∀ k, j < k → update used (base + j) (used (base + j) + taken) (base + k) =
        used (base + k) := fun k hk => update_of_ne (by omega) _ _
    by_cases hrest : remaining - taken = 0
    · rw [hrest, if_neg (by simp), consume_zero]
      exact ⟨_, j, rfl, Nat.le_refl j, hj, rfl, hcred', hpast⟩
    rw [if_pos hrest, entry_succ]
    by_cases hlast : j + 1 = nrCreditEntries
    · rw [if_neg (by rw [not_not]; exact (entry_eq_head hhead hj).mpr hlast)]
      obtain rfl : m = 0 := by omega
      exact ⟨_, j, rfl, Nat.le_refl j, hj, rfl, hcred', hpast⟩
    · rw [if_pos fun he => hlast ((entry_eq_head hhead hj).mp he)]
      obtain ⟨c, last, hc, hge, hlt, hpos, hcredits, hafter⟩ :=
        ih (j + 1) (remaining - taken) (u32 (delay + 1)) (by omega) (by omega) hle' hcred'
      rw [show nrCreditEntries - (j + 1) = m by omega, ← Nat.add_assoc] at hcredits hafter
      refine ⟨c, last, hc, by omega, hlt, hpos, hcredits, fun k hk => ?_⟩
      rw [hafter k hk, hpast k (by omega)]

theorem unitsToXfer_eq {length : Nat} (h : length < 2 ^ 32) :
    unitsToXfer length = divRoundUp length unitXferSize := by
  unfold unitsToXfer divRoundUp unitXferSize
  rw [u64_of_lt (by omega), u32_of_lt (by omega), Nat.add_sub_assoc (by decide)]

theorem unitsToXfer_remaining {length : Nat} (h : length < 2 ^ 32) :
    u32 (u32 (unitsToXfer length * unitXferCredits) + 0) = divRoundUp length unitXferSize := by
  have hlt : divRoundUp length unitXferSize < 2 ^ 32 := by
    unfold divRoundUp unitXferSize
    omega
  rw [unitsToXfer_eq h, unitXferCredits, Nat.mul_one, Nat.add_zero, u32_of_lt hlt, u32_of_lt hlt]

/-- A request before the clock or past the ring changes nothing but the clock. -/
theorem scheduleRequest_none {cap curTime requestTime units : Nat} (h : requestTime < curTime ∨
    nrCreditEntries ≤ requestTime / unitTimeInterval - curTime / unitTimeInterval) :
    scheduleRequest cap used curTime requestTime units = used := if_pos h

/-- The consumption of a request at entry `offs` of the ring, for the clock of the ring. -/
theorem Rep.consumed (h : Rep ch used) {offs : Nat} (units : Nat) (hoffs : offs < nrCreditEntries) : ∃ c,
    consumeLoop ch.head nrCreditEntries ((ch.head + offs) % nrCreditEntries) units 0 ch.availCredits = .ok c ∧
      ∀ validLength, (if ch.head ≤ c.pos then c.pos - ch.head + 1
          else nrCreditEntries - (ch.head - c.pos - 1)) = validLength →
        Rep { ch with
            availCredits := c.availCredits
            validLen := if ch.validLen < validLength then validLength else ch.validLen }
          (consume ch.maxCredits (nrCreditEntries - offs) (ch.slot + offs) units used) := by
  obtain ⟨c, last, hc, hge, hlast, hpos, hcredits, hafter⟩ :=
    consumeLoop_spec offs units 0 h.head_lt hoffs (Nat.sub_le _ _) h.used_le h.credits
  refine ⟨c, hc, fun validLength hlen => ?_⟩
  rw [hpos, validLength_eq h.head_lt hlast] at hlen
  subst hlen
  have hvalid := h.validLen_le
  refine ⟨h.head_lt, ?_, h.maxCredits_pos, h.maxCredits_lt, fun x => consume_le h.used_le, hcredits,
    fun k hk => ?_⟩
  · dsimp only
    split <;> omega
  · dsimp only at hk
    have hk' : last < k ∧ ch.validLen ≤ k := by split at hk <;> omega
    exact (hafter k hk'.1).trans (h.beyond k hk'.2)

/-- One request. The 32 bits of `request_time_offs` hold the offset of its slot, or nothing is consumed at
the offset that they make of it. -/
theorem chmodelLatency_rep (h : Rep ch used) (hcmd : ch.commandCredits = 0)
    {curTime requestTime length : Nat} (hle : ch.curTime ≤ curTime) (hcur : curTime < 2 ^ 64)
    (hreq : requestTime < 2 ^ 64) (hlen : length < 2 ^ 32)
    (hgap : curTime / unitTimeInterval - ch.slot < 2 ^ 32 ∨
      ∀ k, u32 (curTime / unitTimeInterval - ch.slot) ≤ k → used (ch.slot + k) = 0)
    (hahead : requestTime / unitTimeInterval - curTime / unitTimeInterval < 2 ^ 32 ∨ length = 0 ∨
      ∀ k < nrCreditEntries, u32 (requestTime / unitTimeInterval - curTime / unitTimeInterval) ≤ k →
        used (curTime / unitTimeInterval + k) = ch.maxCredits) :
    ∃ latency ch', chmodelLatency ch curTime requestTime length = .ok (latency, ch') ∧
      Rep ch' (scheduleRequest ch.maxCredits used curTime requestTime (divRoundUp length unitXferSize)) ∧
      ch'.curTime = curTime ∧ SameParams ch ch' := by
  obtain ⟨ch₁, hadv, h₁, htime, hsame⟩ := advance_rep h hle hcur hgap
  have hslot : ch₁.slot = curTime / unitTimeInterval := by rw [ChannelModel.slot, htime]
  have hnone (hn : requestTime < curTime ∨ nrCreditEntries ≤
        requestTime / unitTimeInterval - curTime / unitTimeInterval) :
      ∃ latency ch', (.ok (0, ch₁) : Except Bug (Nat × ChannelModel)) = .ok (latency, ch') ∧
        Rep ch' (scheduleRequest ch.maxCredits used curTime requestTime (divRoundUp length unitXferSize)) ∧
        ch'.curTime = curTime ∧ SameParams ch ch' :=
    ⟨0, ch₁, rfl, by rw [scheduleRequest_none hn]; exact h₁, htime, hsame⟩
  unfold chmodelLatency
  rw [hadv, ok_bind]
  dsimp only
  split
  · exact hnone (.inl ‹_›)
  rename_i hnot
  have hdiv : curTime / unitTimeInterval ≤ requestTime / unitTimeInterval :=
    Nat.div_le_div_right (Nat.le_of_not_lt hnot)
  have hbound : requestTime / unitTimeInterval < 2 ^ 64 := Nat.lt_of_le_of_lt (Nat.div_le_self _ _) hreq
  rw [sub64_of_le hdiv hbound]
  generalize hd : requestTime / unitTimeInterval - curTime / unitTimeInterval = ahead at hahead hnone ⊢
  have hmod : u32 ahead ≤ ahead := Nat.mod_le _ _
  split
  · rename_i hbig
    exact hnone (.inr (Nat.le_trans hbig hmod))
  rename_i hfit
  have hunits : u32 (u32 (unitsToXfer length * unitXferCredits) + ch₁.commandCredits) =
      divRoundUp length unitXferSize := by
    rw [hsame.commandCredits, hcmd, unitsToXfer_remaining hlen]
  rw [ensure_of _ (by rw [hsame.maxCredits]; exact Nat.ne_of_gt h.maxCredits_pos), ok_bind, hunits]
  obtain ⟨c, hc, hrep⟩ := h₁.consumed (divRoundUp length unitXferSize) (Nat.lt_of_not_le hfit)
  rw [hc, ok_bind]
  refine ⟨_, _, rfl, ?_, htime, ⟨hsame.maxCredits, hsame.commandCredits, hsame.xferLat⟩⟩
  have hused : scheduleRequest ch.maxCredits used curTime requestTime (divRoundUp length unitXferSize) =
      consume ch₁.maxCredits (nrCreditEntries - u32 ahead) (ch₁.slot + u32 ahead)
        (divRoundUp length unitXferSize) used := by
    rw [hsame.maxCredits, hslot]
    by_cases hsmall : ahead < 2 ^ 32
    · rw [u32_of_lt hsmall] at hfit ⊢
      unfold scheduleRequest
      dsimp only
      rw [hd, if_neg (by omega), (Nat.sub_eq_iff_eq_add' hdiv).mp hd]
    · -- the abstract request is past the ring, and the code consumes nothing
      rw [scheduleRequest_none (.inr (by rw [hd]; unfold nrCreditEntries; omega))]
      obtain hzero | hfull := hahead.resolve_left hsmall
      · rw [hzero, show divRoundUp 0 unitXferSize = 0 from rfl, consume_zero]
      · rw [consume_full fun k hk => ?_]
        rw [Nat.add_assoc]
        exact Nat.le_of_eq (hfull _ (by omega) (Nat.le_add_right _ _)).symm
  rw [hused]
  exact hrep _ rfl

end Requests

end Nvmev
