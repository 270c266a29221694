import NvmeVirt.Lib.Runs
import NvmeVirt.Ssd.Channel

/-!
# The credit ring and the schedule of absolute slots

`CreditRing.Sys` is a channel beside the schedule that says what it is for: how many credits are consumed
in each slot of absolute time, where a request takes its units greedily from its slot on
(`scheduleRequest`). A step is a call of `chmodel_request`.

`credit_ring_refines`: the ring holds what the schedule leaves free, after every call, if the 32-bit slot
offsets of the code hold the distances between the times. `stale_credits_after_idle` is a run in which
they do not: the channel was idle for `2 ^ 32` slots.
-/

namespace Nvmev

open CInt Runs

/-- A call of `chmodel_request` with its reading of the clock, both of 64 bits. -/
structure ChRequest where
  curTime : Nat
  requestTime : Nat
  length : Nat
  curTime_lt : curTime < 2 ^ 64 := by decide
  requestTime_lt : requestTime < 2 ^ 64 := by decide
  length_lt : length < 2 ^ 32 := by decide

namespace CreditRing

/-- A channel, and the schedule with the clock of its last request. -/
structure Sys where
  ch : Except Bug ChannelModel
  maxCredits : Nat
  used : Nat → Nat
  curTime : Nat

/-- A channel after `chmodel_init`, and the empty schedule. -/
def Sys.init (maxCredits xferLat : Nat) : Sys :=
  { ch := .ok (freshChannel maxCredits xferLat), maxCredits, used := fun _ => 0, curTime := 0 }

/-- One request, of the channel and of the schedule. -/
def step (s : Sys) (a : ChRequest) : Sys :=
  { s with
    ch := do
      let (_, ch) ← chmodelRequest (← s.ch) a.curTime a.requestTime a.length
      pure ch
    used := scheduleRequest s.maxCredits s.used a.curTime a.requestTime (divRoundUp a.length unitXferSize)
    curTime := a.curTime }

@[simp] theorem step_maxCredits (s : Sys) (a : ChRequest) : (step s a).maxCredits = s.maxCredits := rfl

@[simp] theorem step_curTime (s : Sys) (a : ChRequest) : (step s a).curTime = a.curTime := rfl

theorem step_used (s : Sys) (a : ChRequest) : (step s a).used = scheduleRequest s.maxCredits s.used a.curTime
    a.requestTime (divRoundUp a.length unitXferSize) := rfl

/-- The channel did not stop, and entry `k` of its ring has the credits that the schedule leaves in the
`k`-th slot from the clock. -/
def Refines (s : Sys) : Prop :=
  ∃ ch, s.ch = .ok ch ∧ ∀ k < nrCreditEntries, ch.availCredits ((ch.head + k) % nrCreditEntries) =
    s.maxCredits - s.used (s.curTime / unitTimeInterval + k)

/-- The clock does not go back. -/
def ClockForward (s : Sys) (a : ChRequest) : Prop := s.curTime ≤ a.curTime

/-- The offsets in the ring fit in 32 bits, or it makes no difference: nothing is consumed in the slots
that a truncated clock offset leaves in the ring, or the request has no units, or there are no credits,
where a truncated request offset leads. -/
structure Fits (s : Sys) (a : ChRequest) : Prop where
  gap : a.curTime / unitTimeInterval - s.curTime / unitTimeInterval < 2 ^ 32 ∨
    ∀ k, u32 (a.curTime / unitTimeInterval - s.curTime / unitTimeInterval) ≤ k →
      s.used (s.curTime / unitTimeInterval + k) = 0
  ahead : a.requestTime / unitTimeInterval - a.curTime / unitTimeInterval < 2 ^ 32 ∨ a.length = 0 ∨
    ∀ k < nrCreditEntries, u32 (a.requestTime / unitTimeInterval - a.curTime / unitTimeInterval) ≤ k →
      s.used (a.curTime / unitTimeInterval + k) = s.maxCredits

/-- The invariant: the channel is one that `Rep` relates to the schedule. -/
structure Inv (s : Sys) : Prop where
  rep : ∃ ch, s.ch = .ok ch ∧ Rep ch s.used ∧ ch.curTime = s.curTime ∧ ch.maxCredits = s.maxCredits ∧
    ch.commandCredits = 0

theorem Inv.refines {s : Sys} (h : Inv s) : Refines s := by
  obtain ⟨ch, hch, hrep, htime, hmax, -⟩ := h.rep
  refine ⟨ch, hch, fun k hk => ?_⟩
  rw [hrep.credits k hk, ChannelModel.slot, htime, hmax]

theorem Inv.step {s : Sys} (h : Inv s) (a : ChRequest) (hclock : ClockForward s a) (hfits : Fits s a) :
    Inv (step s a) := by
  obtain ⟨ch, hch, hrep, htime, hmax, hcmd⟩ := h.rep
  have hslot : ch.slot = s.curTime / unitTimeInterval := by rw [ChannelModel.slot, htime]
  obtain ⟨latency, ch', hreq, hrep', htime', hsame⟩ := chmodelLatency_rep hrep hcmd
    (by rw [htime]; exact hclock) a.curTime_lt a.requestTime_lt a.length_lt
    (by rw [hslot]; exact hfits.gap) (by rw [hmax]; exact hfits.ahead)
  rw [hmax] at hrep'
  refine ⟨ch', ?_, hrep', htime', hsame.maxCredits.trans hmax, hsame.commandCredits.trans hcmd⟩
  unfold CreditRing.step chmodelRequest
  rw [hch]
  dsimp only [bind, Except.bind]
  rw [hreq]
  rfl

end CreditRing

/-- Every channel with 1 to 255 credits, and every sequence of requests at readings of a clock that does
not go back, with any request times and lengths below 2^32: after each call the ring has what the schedule
leaves free in the slots from the clock on, if the slot offsets of every call fit in their 32 bits or their
truncation meets nothing. -/
theorem credit_ring_refines {maxCredits : Nat} (hpos : 1 ≤ maxCredits) (hle : maxCredits ≤ 255) (xferLat : Nat)
    (requests : List ChRequest)
    (hclock : AllSteps CreditRing.step CreditRing.ClockForward (.init maxCredits xferLat) requests)
    (hfits : AllSteps CreditRing.step CreditRing.Fits (.init maxCredits xferLat) requests) :
    AllStates CreditRing.step CreditRing.Refines (.init maxCredits xferLat) requests := by
  have hinit : CreditRing.Inv (.init maxCredits xferLat) :=
    ⟨_, rfl, rep_fresh hpos (Nat.lt_succ_of_le hle), rfl, rfl, rfl⟩
  have hsteps : AllSteps CreditRing.step (fun s a => CreditRing.ClockForward s a ∧ CreditRing.Fits s a)
      (.init maxCredits xferLat) requests := fun l a hl => ⟨hclock l a hl, hfits l a hl⟩
  intro l hl
  exact (invariant hinit hsteps (fun s a h hP => h.step a hP.1 hP.2) l hl).refines

/-- The clock goes on by three slots, and there is a request past the end of the ring. -/
theorem credit_ring_refines_short_gap : AllStates CreditRing.step CreditRing.Refines (.init 8 0)
    [{ curTime := 0, requestTime := 4000, length := 4096 },
      { curTime := 12000, requestTime := 400000000, length := 128 }] :=
  credit_ring_refines (by decide) (by decide) 0 _
    (allSteps_cons.mpr ⟨Nat.zero_le _, allSteps_cons.mpr ⟨by exact Nat.zero_le _, allSteps_nil⟩⟩)
    (allSteps_cons.mpr ⟨⟨.inl (by decide), .inl (by decide)⟩,
      allSteps_cons.mpr ⟨⟨.inl (by decide), .inl (by decide)⟩, allSteps_nil⟩⟩)

/-- A request consumes one of eight credits of slot 0, and another one comes after `2 ^ 32` slots. -/
def CreditRing.longIdle : List ChRequest :=
  [{ curTime := 0, requestTime := 0, length := 128 },
    { curTime := 2 ^ 32 * 4000, requestTime := 0, length := 128 }]

/-- After the idle time the ring has seven credits for the slot of the clock, which was never used. -/
theorem stale_credits_after_idle :
    ¬ AllStates CreditRing.step CreditRing.Refines (.init 8 0) CreditRing.longIdle := by
  intro h
  obtain ⟨ch, hch, hcredits⟩ := h _ (List.prefix_refl _)
  have hstale : (do
      let ch ← (CreditRing.longIdle.foldl CreditRing.step (.init 8 0)).ch
      pure (ch.availCredits ((ch.head + 0) % nrCreditEntries))) = .ok 7 := by rfl
  -- the schedule uses nothing after slot 0
  have hused : (CreditRing.longIdle.foldl CreditRing.step (.init 8 0)).used
      (2 ^ 32 * 4000 / unitTimeInterval + 0) =
      0 := by
    rw [CreditRing.longIdle, List.foldl_cons, List.foldl_cons, List.foldl_nil, CreditRing.step_used,
      scheduleRequest_none (.inl (by decide)), CreditRing.step_used]
    unfold scheduleRequest
    rw [if_neg (by decide), SlotSchedule.consume_after (by decide)]
    rfl
  have htime : (CreditRing.longIdle.foldl CreditRing.step (.init 8 0)).curTime = 2 ^ 32 * 4000 := by
    simp [CreditRing.longIdle]
  have hmax : (CreditRing.longIdle.foldl CreditRing.step (.init 8 0)).maxCredits = 8 := by
    simp [CreditRing.longIdle, CreditRing.Sys.init]
  rw [hch, Outcome.ok_bind, hcredits 0 (by decide), hmax, htime, hused] at hstale
  cases hstale

end Nvmev
