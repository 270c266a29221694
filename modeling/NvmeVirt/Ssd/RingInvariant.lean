import Mathlib.Algebra.BigOperators.Group.Finset.Piecewise
import NvmeVirt.Ssd.CreditRing

/-!
# The representation invariant of the credit ring

`RingInv` is what the fields of a channel satisfy between the calls of `chmodel_request`, whatever the clock
does. The entries that are not among the `valid_len` from `head` on are full, so clearing the passed ones
restores all credits behind the new `head`.

`credit_ring_invariant`: every call returns and keeps it, and takes as many credits as it has units, unless
it returns early or ends with `No free entry`.
-/

namespace Nvmev

open CInt Function Outcome Runs

open Finset (range sum_update_of_mem add_sum_erase sdiff_singleton_eq_erase)

namespace CreditRing

/-- The fields of a channel between two requests. -/
structure RingInv (maxCredits : Nat) (ch : ChannelModel) : Prop where
  head_lt : ch.head < nrCreditEntries
  validLen_le : ch.validLen ≤ nrCreditEntries
  maxCredits_eq : ch.maxCredits = maxCredits
  commandCredits_eq : ch.commandCredits = 0
  avail_le : ∀ i < nrCreditEntries, ch.availCredits i ≤ maxCredits
  full : ∀ k, ch.validLen ≤ k → k < nrCreditEntries →
    ch.availCredits ((ch.head + k) % nrCreditEntries) = maxCredits

/-- The credits in the ring. -/
def credits (availCredits : Nat → Nat) : Nat := ∑ i ∈ range nrCreditEntries, availCredits i

/-- The loop of `chmodel_request` ends with `No free entry`. -/
def noFreeEntry (head : Nat) : Nat → Nat → Nat → (Nat → Nat) → Bool
  | 0, _, _, _ => false
  | fuel + 1, pos, remainingCredits, availCredits =>
    let consumedCredits :=
      if remainingCredits ≤ availCredits pos then remainingCredits else availCredits pos
    let remainingCredits := remainingCredits - consumedCredits
    if remainingCredits ≠ 0 then
      let nextPos := (pos + 1) % nrCreditEntries
      if nextPos ≠ head then
        noFreeEntry head fuel nextPos remainingCredits
          (update availCredits pos (availCredits pos - consumedCredits))
      else true
    else false

/-- `request_time_offs`. -/
def requestTimeOffs (r : ChRequest) : Nat :=
  u32 (sub64 (r.requestTime / unitTimeInterval) (r.curTime / unitTimeInterval))

/-- The request takes one of the two early returns. -/
def EarlyReturn (r : ChRequest) : Prop :=
  r.requestTime < r.curTime ∨ nrCreditEntries ≤ requestTimeOffs r

/-- The loop of a request on the ring `ch₁`, whose `head` is at the clock, ends with `No free entry`. -/
def RunsOut (ch₁ : ChannelModel) (r : ChRequest) : Prop :=
  noFreeEntry ch₁.head nrCreditEntries ((ch₁.head + requestTimeOffs r) % nrCreditEntries)
    (divRoundUp r.length unitXferSize) ch₁.availCredits = true

/-- A request returns: no assertion fails, and the loop ends in `NR_CREDIT_ENTRIES` turns. The credits that
it removes from the ring, after the clock has moved `head`, are its units. -/
def Returns (ch : ChannelModel) (r : ChRequest) : Prop :=
  ∃ ch₁ time ch', ch.advance r.curTime = .ok ch₁ ∧
    chmodelRequest ch r.curTime r.requestTime r.length = .ok (time, ch') ∧
    (EarlyReturn r ∨ RunsOut ch₁ r ∨
      credits ch'.availCredits + divRoundUp r.length unitXferSize = credits ch₁.availCredits)

/-- The channel did not stop, it is well formed, and the next request returns. -/
def Sound (s : Sys) : Prop :=
  ∃ ch, s.ch = .ok ch ∧ RingInv s.maxCredits ch ∧ ∀ r, Returns ch r

/-! ## Moving the head -/

section Advance

variable {maxCredits : Nat} {ch : ChannelModel}

/-- Every slot of the ring is an entry after `head`. -/
theorem exists_entry {head i : Nat} (hhead : head < nrCreditEntries) (hi : i < nrCreditEntries) :
    ∃ k < nrCreditEntries, (head + k) % nrCreditEntries = i := by
  obtain hle | hlt := Nat.lt_or_ge i head
  · refine ⟨nrCreditEntries - head + i, by omega, ?_⟩
    rw [entry_eq hhead (by omega)]
    split <;> omega
  · refine ⟨i - head, by omega, ?_⟩
    rw [entry_eq hhead (by omega)]
    split <;> omega

theorem ringInv_fresh {xferLat : Nat} (hlt : maxCredits < 2 ^ 8) :
    RingInv maxCredits (freshChannel maxCredits xferLat) :=
  ⟨Nat.zero_lt_succ _, Nat.zero_le _, rfl, rfl, fun _ _ => Nat.mod_le _ _,
    fun _ _ _ => Nat.mod_eq_of_lt hlt⟩

/-- Moving `head` by `n` of the used entries. -/
theorem RingInv.passed (h : RingInv maxCredits ch) (hlt : maxCredits < 2 ^ 8) {n : Nat}
    (hn : n ≤ ch.validLen) {a : Nat → Nat} (ha : ∀ k < nrCreditEntries,
      a ((ch.head + k) % nrCreditEntries) = if k < n then ch.maxCredits % 2 ^ 8
        else ch.availCredits ((ch.head + k) % nrCreditEntries)) (curTime : Nat) :
    RingInv maxCredits { ch with
      availCredits := a, head := (ch.head + n) % nrCreditEntries, curTime, validLen := ch.validLen - n } := by
  have hhead := h.head_lt
  have hvalid := h.validLen_le
  rw [h.maxCredits_eq, Nat.mod_eq_of_lt hlt] at ha
  refine ⟨Nat.mod_lt _ (Nat.zero_lt_of_lt hhead), by dsimp only; omega, h.maxCredits_eq,
    h.commandCredits_eq, fun i hi => ?_, fun k hk hkn => ?_⟩
  · obtain ⟨k, hk, rfl⟩ := exists_entry hhead hi
    dsimp only
    rw [ha k hk]
    split
    · exact Nat.le_refl _
    · exact h.avail_le _ hi
  · dsimp only at hk ⊢
    rw [Nat.mod_add_mod, Nat.add_assoc]
    by_cases hwrap : n + k < nrCreditEntries
    · rw [ha _ hwrap, if_neg (by omega)]
      exact h.full _ (by omega) hwrap
    · -- the entry is one of those that were passed
      have hback : (ch.head + (n + k)) % nrCreditEntries =
          (ch.head + (n + k - nrCreditEntries)) % nrCreditEntries := by
        rw [show ch.head + (n + k) = ch.head + (n + k - nrCreditEntries) + nrCreditEntries by omega,
          Nat.add_mod_right]
      rw [hback, ha _ (by omega), if_pos (by omega)]

/-- The first part of a request, at any reading of the clock. -/
theorem RingInv.advance (h : RingInv maxCredits ch) (hlt : maxCredits < 2 ^ 8) (curTime : Nat) :
    Total (ch.advance curTime) fun ch₁ => RingInv maxCredits ch₁ ∧ ch₁.xferLat = ch.xferLat := by
  have hvalid := h.validLen_le
  unfold ChannelModel.advance
  dsimp only
  generalize u32 (sub64 (curTime / unitTimeInterval) (ch.curTime / unitTimeInterval)) = offs
  obtain ⟨n, hn, hle⟩ : ∃ n, (if offs < ch.validLen then offs else ch.validLen) = n ∧ n ≤ ch.validLen :=
    ⟨_, rfl, by split <;> omega⟩
  rw [hn]
  obtain ⟨a, hclear, ha⟩ := clear_spec h.head_lt (hle.trans hvalid)
  rw [hclear, ok_bind]
  unfold nvmevAssert
  rw [ensure_of _ (by omega)]
  exact .ret ⟨h.passed hlt hle ha curTime, rfl⟩

end Advance

/-! ## Consuming the credits -/

theorem credits_update {a : Nat → Nat} {pos taken : Nat} (hpos : pos < nrCreditEntries)
    (ht : taken ≤ a pos) : credits (update a pos (a pos - taken)) + taken = credits a := by
  have hmem : pos ∈ range nrCreditEntries := Finset.mem_range.mpr hpos
  have hsum := add_sum_erase (range nrCreditEntries) a hmem
  unfold credits
  rw [sum_update_of_mem hmem, sdiff_singleton_eq_erase]
  omega

/-- What the loop does to the ring, from entry `j` on. -/
theorem consumeLoop_takes {head fuel : Nat} (j remaining delay : Nat) (avail : Nat → Nat)
    (hhead : head < nrCreditEntries) (hj : j < nrCreditEntries) (hfuel : nrCreditEntries - j ≤ fuel) :
    Total (consumeLoop head fuel ((head + j) % nrCreditEntries) remaining delay avail) fun c =>
      (∀ i, c.availCredits i ≤ avail i) ∧
      (∃ last < nrCreditEntries, c.pos = (head + last) % nrCreditEntries ∧ j ≤ last ∧
        ∀ k < nrCreditEntries, last < k → c.availCredits ((head + k) % nrCreditEntries) =
          avail ((head + k) % nrCreditEntries)) ∧
      (noFreeEntry head fuel ((head + j) % nrCreditEntries) remaining avail = true ∨
        credits c.availCredits + remaining = credits avail) := by
  induction fuel generalizing j remaining delay avail with
  | zero => omega
  | succ fuel ih =>
    have hpos : (head + j) % nrCreditEntries < nrCreditEntries := Nat.mod_lt _ (Nat.zero_lt_of_lt hhead)
    unfold consumeLoop noFreeEntry
    dsimp only
    obtain ⟨taken, htaken, hle, hrest⟩ : ∃ t, (if remaining ≤ avail ((head + j) % nrCreditEntries)
        then remaining else avail ((head + j) % nrCreditEntries)) = t ∧
        t ≤ avail ((head + j) % nrCreditEntries) ∧ t ≤ remaining :=
      ⟨_, rfl, by split <;> omega, by split <;> omega⟩
    rw [htaken]
    have hsum := credits_update hpos hle
    have hless : ∀ i, update avail ((head + j) % nrCreditEntries)
        (avail ((head + j) % nrCreditEntries) - taken) i ≤ avail i := by
      intro i
      by_cases hi : i = (head + j) % nrCreditEntries
      · rw [hi, update_self]
        omega
      · rw [update_of_ne hi]
    have hafter : ∀ k < nrCreditEntries, j < k → update avail ((head + j) % nrCreditEntries)
        (avail ((head + j) % nrCreditEntries) - taken) ((head + k) % nrCreditEntries) =
          avail ((head + k) % nrCreditEntries) := by
      intro k hk hjk
      refine update_of_ne (fun he => ?_) _ _
      have := entry_inj hk hj he
      omega
    generalize update avail ((head + j) % nrCreditEntries)
      (avail ((head + j) % nrCreditEntries) - taken) = avail' at hsum hless hafter ⊢
    by_cases hdone : remaining - taken = 0
    · rw [if_neg (not_not.mpr hdone), if_neg (not_not.mpr hdone)]
      exact .ret ⟨hless, ⟨j, hj, rfl, Nat.le_refl j, hafter⟩, .inr (by dsimp only; omega)⟩
    rw [if_pos hdone, if_pos hdone, entry_succ]
    by_cases hlast : (head + (j + 1)) % nrCreditEntries = head
    · rw [if_neg (not_not.mpr hlast), if_neg (not_not.mpr hlast)]
      exact .ret ⟨hless, ⟨j, hj, rfl, Nat.le_refl j, hafter⟩, .inl rfl⟩
    · rw [if_pos hlast, if_pos hlast]
      have hne : j + 1 ≠ nrCreditEntries := fun he => hlast ((entry_eq_head hhead hj).mpr he)
      refine (ih (j + 1) _ _ avail' (by omega) (by omega)).mono ?_
      rintro c ⟨hless', ⟨last, hlt, hpos', hge, hafter'⟩, hcount⟩
      refine ⟨fun i => (hless' i).trans (hless i), ⟨last, hlt, hpos', by omega, fun k hk hlk => ?_⟩, ?_⟩
      · rw [hafter' k hk hlk, hafter k hk (by omega)]
      · refine hcount.imp_right fun hc => ?_
        omega

/-! ## Requests -/

section Requests

variable {maxCredits : Nat} {ch : ChannelModel}

/-- The ring after the loop of a request at entry `offs`. -/
theorem RingInv.consumed (h : RingInv maxCredits ch) {offs : Nat} (units : Nat)
    (hoffs : offs < nrCreditEntries) : ∃ c,
    consumeLoop ch.head nrCreditEntries ((ch.head + offs) % nrCreditEntries) units 0 ch.availCredits = .ok c ∧
      RingInv maxCredits { ch with
        availCredits := c.availCredits
        validLen :=
          let validLength :=
            if ch.head ≤ c.pos then c.pos - ch.head + 1 else nrCreditEntries - (ch.head - c.pos - 1)
          if ch.validLen < validLength then validLength else ch.validLen } ∧
      (noFreeEntry ch.head nrCreditEntries ((ch.head + offs) % nrCreditEntries) units ch.availCredits = true ∨
        credits c.availCredits + units = credits ch.availCredits) := by
  obtain ⟨c, hc, hless, ⟨last, hlast, hpos, -, hafter⟩, hcount⟩ :=
    consumeLoop_takes offs units 0 ch.availCredits h.head_lt hoffs (Nat.sub_le _ _)
  refine ⟨c, hc, ?_, hcount⟩
  have hvalid := h.validLen_le
  rw [hpos, validLength_eq h.head_lt hlast]
  refine ⟨h.head_lt, ?_, h.maxCredits_eq, h.commandCredits_eq,
    fun i hi => (hless i).trans (h.avail_le i hi), fun k hk hkn => ?_⟩
  · dsimp only
    split <;> omega
  · dsimp only at hk ⊢
    have hk' : last < k ∧ ch.validLen ≤ k := by split at hk <;> omega
    rw [hafter k hkn hk'.1]
    exact h.full k hk'.2 hkn

/-- `total_latency` of a transfer of `units` that went on for `delay` entries. -/
def totalLatency (xferLat maxCredits units delay : Nat) : Nat :=
  u64 (u32 (xferLat * units) +
    (if units / maxCredits < delay then delay - units / maxCredits else 0) * unitTimeInterval)

/-- A request either returns early, or takes its units from the entry of its time on. -/
theorem RingInv.request_cases (h : RingInv maxCredits ch) (hpos : 0 < maxCredits)
    (hlt : maxCredits < 2 ^ 8) (r : ChRequest) : ∃ ch₁ ch', ch.advance r.curTime = .ok ch₁ ∧
      RingInv maxCredits ch' ∧ ch'.xferLat = ch.xferLat ∧
      ((EarlyReturn r ∧
          chmodelRequest ch r.curTime r.requestTime r.length = .ok (u64 r.requestTime, ch')) ∨
        ¬ EarlyReturn r ∧ ∃ c, consumeLoop ch₁.head nrCreditEntries
            ((ch₁.head + requestTimeOffs r) % nrCreditEntries) (divRoundUp r.length unitXferSize) 0
            ch₁.availCredits = .ok c ∧
          chmodelRequest ch r.curTime r.requestTime r.length = .ok (u64 (r.requestTime +
            totalLatency ch.xferLat maxCredits (divRoundUp r.length unitXferSize) c.delay), ch') ∧
          (RunsOut ch₁ r ∨
            credits ch'.availCredits + divRoundUp r.length unitXferSize = credits ch₁.availCredits)) := by
  obtain ⟨ch₁, hadv, h₁, hxfer⟩ := h.advance hlt r.curTime
  refine ⟨ch₁, ?_⟩
  unfold chmodelRequest chmodelLatency
  dsimp only
  rw [hadv, ok_bind]
  by_cases hbefore : r.requestTime < r.curTime
  · rw [if_pos hbefore]
    exact ⟨ch₁, rfl, h₁, hxfer, .inl ⟨.inl hbefore, rfl⟩⟩
  rw [if_neg hbefore]
  change ∃ ch', _ ∧ _ ∧ _ ∧ ((_ ∧ ((if nrCreditEntries ≤ requestTimeOffs r then _ else _) >>= _) = _) ∨
    _ ∧ ∃ c, _ ∧ ((if nrCreditEntries ≤ requestTimeOffs r then _ else _) >>= _) = _ ∧ _)
  by_cases hfar : nrCreditEntries ≤ requestTimeOffs r
  · rw [if_pos hfar]
    exact ⟨ch₁, rfl, h₁, hxfer, .inl ⟨.inr hfar, rfl⟩⟩
  have hunits : u32 (u32 (unitsToXfer r.length * unitXferCredits) + ch₁.commandCredits) =
      divRoundUp r.length unitXferSize := by
    rw [h₁.commandCredits_eq, unitsToXfer_remaining r.length_lt]
  rw [if_neg hfar, ensure_of _ (by rw [h₁.maxCredits_eq]; omega), ok_bind, hunits,
    unitsToXfer_eq r.length_lt]
  obtain ⟨c, hc, hinv, hcount⟩ := h₁.consumed (divRoundUp r.length unitXferSize) (Nat.lt_of_not_le hfar)
  change ∃ ch', _ ∧ _ ∧ _ ∧ ((_ ∧ (((consumeLoop _ _ ((_ + requestTimeOffs r) % _) _ _ _) >>= _) >>= _) =
    _) ∨ _ ∧ ∃ c, _ ∧ (((consumeLoop _ _ ((_ + requestTimeOffs r) % _) _ _ _) >>= _) >>= _) = _ ∧ _)
  rw [hc]
  refine ⟨_, rfl, hinv, hxfer, .inr ⟨not_or.mpr ⟨hbefore, hfar⟩, c, rfl, ?_, hcount⟩⟩
  rw [← hxfer, ← h₁.maxCredits_eq]
  rfl

/-- A request keeps the invariant. -/
theorem RingInv.request (h : RingInv maxCredits ch) (hpos : 0 < maxCredits) (hlt : maxCredits < 2 ^ 8)
    (r : ChRequest) : ∃ ch₁ time ch', ch.advance r.curTime = .ok ch₁ ∧
      chmodelRequest ch r.curTime r.requestTime r.length = .ok (time, ch') ∧
      (RingInv maxCredits ch' ∧ ch'.xferLat = ch.xferLat) ∧
      (EarlyReturn r ∨ RunsOut ch₁ r ∨
        credits ch'.availCredits + divRoundUp r.length unitXferSize = credits ch₁.availCredits) := by
  obtain ⟨ch₁, ch', hadv, hinv, hxfer, ⟨hearly, hreq⟩ | ⟨-, c, -, hreq, hcount⟩⟩ :=
    h.request_cases hpos hlt r
  · exact ⟨ch₁, _, ch', hadv, hreq, ⟨hinv, hxfer⟩, .inl hearly⟩
  · exact ⟨ch₁, _, ch', hadv, hreq, ⟨hinv, hxfer⟩, .inr hcount⟩

end Requests

end CreditRing

/-- Every channel with 1 to 255 credits, and every sequence of requests with any readings of the clock, any
request times and lengths below 2^32: after each call the ring is well formed, and the next request, whatever
it is, returns and takes its units from the ring, or it returns early or runs out of entries. -/
theorem credit_ring_invariant {maxCredits : Nat} (hpos : 1 ≤ maxCredits) (hle : maxCredits ≤ 255)
    (xferLat : Nat) (requests : List ChRequest) :
    AllStates CreditRing.step CreditRing.Sound (.init maxCredits xferLat) requests := by
  have hlt : maxCredits < 2 ^ 8 := Nat.lt_succ_of_le hle
  let Inv (s : CreditRing.Sys) : Prop :=
    ∃ ch, s.ch = .ok ch ∧ CreditRing.RingInv maxCredits ch ∧ s.maxCredits = maxCredits
  have hinit : Inv (.init maxCredits xferLat) := ⟨_, rfl, CreditRing.ringInv_fresh hlt, rfl⟩
  have hsteps : AllSteps CreditRing.step (fun _ _ => True) (.init maxCredits xferLat) requests :=
    fun _ _ _ => trivial
  have hstep : ∀ s r, Inv s → True → Inv (CreditRing.step s r) := by
    rintro s r ⟨ch, hch, h, hmax⟩ -
    obtain ⟨-, time, ch', -, hreq, ⟨h', -⟩, -⟩ := h.request hpos hlt r
    refine ⟨ch', ?_, h', hmax⟩
    unfold CreditRing.step
    rw [hch]
    dsimp only [bind, Except.bind]
    rw [hreq]
    rfl
  intro l hl
  obtain ⟨ch, hch, h, hmax⟩ := invariant hinit hsteps hstep l hl
  refine ⟨ch, hch, by rw [hmax]; exact h, fun r => ?_⟩
  obtain ⟨ch₁, time, ch', hadv, hreq, -, hcount⟩ := h.request hpos hlt r
  exact ⟨ch₁, time, ch', hadv, hreq, hcount⟩

/-- The clock goes back, and a request reaches over the end of the ring. -/
theorem credit_ring_invariant_clock_back : AllStates CreditRing.step CreditRing.Sound (.init 26 152)
    [{ curTime := 8000, requestTime := 9000, length := 65536 },
      { curTime := 4000, requestTime := 393000000, length := 4294967295 }] :=
  credit_ring_invariant (by decide) (by decide) 152 _

end Nvmev
