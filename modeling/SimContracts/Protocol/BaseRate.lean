/-
The base rate and its clock.

Borrowing decays the base rate by whole minutes since the last fee operation, and sets the clock to the current second if
at least a minute has passed. The seconds beyond the whole minutes are lost with every such reset, so traffic slows the
decay down: calls every 119 seconds halve it. The minutes are all counted iff the seconds lost add up to less than a
minute.

A redemption raises the decayed rate by half the fraction of the debt that it redeems, rounded down. A small redemption
raises it by nothing; the assertion that the new rate is positive then fails, unless some of the old rate is left.

Results:
  decay_minutes     the minutes counted by a sequence of borrowings, and when they are all of them
  reached_rate      the base rate is at most 1 and its clock is not ahead
  redemption_rate   when a redemption passes the assertion on the new base rate
-/
import SimContracts.Protocol.Registry

namespace SimContracts.Protocol

open Solidity TroveManager BorrowerOperations

variable {c : Config} {env : Env} {s s' s₁ : System} {timestamp : ℕ}

/-! ## Decay -/

/-- the base rate after a number of minutes -/
def decayedRate (baseRate minutes : ℕ) : ℕ := baseRate * (decPow MINUTE_DECAY_FACTOR minutes).shown / DECIMAL_PRECISION

/-- the clock after a fee operation -/
def clockAfter (clock timestamp : ℕ) : ℕ := if SECONDS_IN_ONE_MINUTE ≤ timestamp - clock then timestamp else clock

/-- `s` with another base rate and clock -/
def System.withRate (s : System) (baseRate lastFeeOperationTime : ℕ) : System :=
  { s with troveManager := { s.troveManager with baseRate, lastFeeOperationTime } }

theorem decayedRate_le (baseRate minutes : ℕ) : decayedRate baseRate minutes ≤ baseRate := by
  obtain ⟨factor, hfactor, hle⟩ := decPow_le (show MINUTE_DECAY_FACTOR ≤ DECIMAL_PRECISION by decide) minutes
  rw [decayedRate, hfactor]
  calc
    baseRate * factor / DECIMAL_PRECISION ≤ baseRate * DECIMAL_PRECISION / DECIMAL_PRECISION :=
      Nat.div_le_div_right (Nat.mul_le_mul_left _ hle)
    _ = baseRate := Nat.mul_div_cancel _ (by decide)

theorem clockAfter_short {clock : ℕ} (h : timestamp - clock < 60) : clockAfter clock timestamp = clock :=
  if_neg (Nat.not_le.2 h)

theorem clockAfter_minute {clock : ℕ} (h : 60 ≤ timestamp - clock) : clockAfter clock timestamp = timestamp := if_pos h

theorem clockAfter_le {clock : ℕ} (h : clock ≤ timestamp) : clockAfter clock timestamp ≤ timestamp := by
  unfold clockAfter
  split_ifs
  · exact le_rfl
  · exact h

theorem minutesPassed_eq (htime : s.troveManager.lastFeeOperationTime ≤ timestamp) :
    minutesPassedSinceLastFeeOp s timestamp = .ok ((timestamp - s.troveManager.lastFeeOperationTime) / 60) := by
  rw [minutesPassedSinceLastFeeOp, usub_bind, udiv_ok]
  exact ⟨htime, by decide, rfl⟩

theorem calcDecayedBaseRate_eq (hrate : s.troveManager.baseRate ≤ DECIMAL_PRECISION)
    (htime : s.troveManager.lastFeeOperationTime ≤ timestamp) :
    calcDecayedBaseRate s timestamp =
      .ok (decayedRate s.troveManager.baseRate ((timestamp - s.troveManager.lastFeeOperationTime) / 60)) := by
  obtain ⟨factor, hfactor, hle⟩ :=
    decPow_le (show MINUTE_DECAY_FACTOR ≤ DECIMAL_PRECISION by decide) ((timestamp - s.troveManager.lastFeeOperationTime) / 60)
  have hprod : s.troveManager.baseRate * factor ≤ DECIMAL_PRECISION * DECIMAL_PRECISION := Nat.mul_le_mul hrate hle
  rw [calcDecayedBaseRate, minutesPassed_eq htime, ok_bind, hfactor, ok_bind, umul_bind, udiv_ok]
  refine ⟨hprod.trans_lt (by decide), by decide, ?_⟩
  rw [decayedRate, hfactor]
  rfl

theorem updateLastFeeOpTime_eq (htime : s.troveManager.lastFeeOperationTime ≤ timestamp) :
    updateLastFeeOpTime s timestamp =
      .ok (s.withRate s.troveManager.baseRate (clockAfter s.troveManager.lastFeeOperationTime timestamp)) := by
  rw [updateLastFeeOpTime, usub_bind, clockAfter]
  refine ⟨htime, ?_⟩
  split_ifs <;> rfl

/-- one borrowing: the rate decays by whole minutes and the clock is reset after one -/
theorem decayBaseRateFromBorrowing_eq (hrate : s.troveManager.baseRate ≤ DECIMAL_PRECISION)
    (htime : s.troveManager.lastFeeOperationTime ≤ timestamp) :
    decayBaseRateFromBorrowing c c.borrowerOperations s timestamp =
      .ok (s.withRate (decayedRate s.troveManager.baseRate ((timestamp - s.troveManager.lastFeeOperationTime) / 60))
        (clockAfter s.troveManager.lastFeeOperationTime timestamp)) := by
  rw [decayBaseRateFromBorrowing, requireCallerIsBorrowerOperations, require_bind]
  refine ⟨rfl, ?_⟩
  rw [calcDecayedBaseRate_eq hrate htime, ok_bind, assert_bind]
  exact ⟨(decayedRate_le _ _).trans hrate, updateLastFeeOpTime_eq htime⟩

/-! ## Borrowing traffic -/

/-- borrowings at the given times, and how many minutes of decay they apply in all -/
def decayCalls (c : Config) : System → List ℕ → Res (ℕ × System)
  | s, [] => .ok (0, s)
  | s, timestamp :: times => do
    let minutesPassed ← minutesPassedSinceLastFeeOp s timestamp
    let s ← decayBaseRateFromBorrowing c c.borrowerOperations s timestamp
    let (more, s) ← decayCalls c s times
    pure (minutesPassed + more, s)

/-- the seconds beyond whole minutes: at every time that comes a minute or more after the last one counted, and at `T` -/
def secondsLost (clock : ℕ) : List ℕ → ℕ → ℕ
  | [], T => (T - clock) % 60
  | timestamp :: times, T =>
    if timestamp - clock < 60 then secondsLost clock times T
    else (timestamp - clock) % 60 + secondsLost timestamp times T

/-- the minutes that are counted and the seconds that are lost make up the time -/
theorem decayCalls_minutes (s : System) (times : List ℕ) (T : ℕ)
    (hrate : s.troveManager.baseRate ≤ DECIMAL_PRECISION)
    (hsorted : (s.troveManager.lastFeeOperationTime :: (times ++ [T])).Pairwise (· ≤ ·)) :
    ∃ applied s' passed, decayCalls c s times = .ok (applied, s') ∧ minutesPassedSinceLastFeeOp s' T = .ok passed ∧
      60 * (applied + passed) + secondsLost s.troveManager.lastFeeOperationTime times T =
        T - s.troveManager.lastFeeOperationTime := by
  induction times generalizing s with
  | nil =>
    have htime : s.troveManager.lastFeeOperationTime ≤ T := (List.pairwise_cons.1 hsorted).1 T (by simp)
    refine ⟨0, s, _, rfl, minutesPassed_eq htime, ?_⟩
    rw [secondsLost, Nat.zero_add]
    exact Nat.div_add_mod _ 60
  | cons timestamp times ih =>
    obtain ⟨hfirst, hlater⟩ := List.pairwise_cons.1 hsorted
    have htime : s.troveManager.lastFeeOperationTime ≤ timestamp := hfirst timestamp (by simp)
    have hT : timestamp ≤ T := (List.pairwise_cons.1 hlater).1 T (by simp)
    have hcall := decayBaseRateFromBorrowing_eq (c := c) hrate htime
    have hclock := clockAfter_le htime
    have hsorted' : (clockAfter s.troveManager.lastFeeOperationTime timestamp :: (times ++ [T])).Pairwise (· ≤ ·) :=
      List.pairwise_cons.2 ⟨fun t ht => hclock.trans ((List.pairwise_cons.1 hlater).1 t ht), (List.pairwise_cons.1 hlater).2⟩
    obtain ⟨more, s', passed, hmore, hpassed, hsum⟩ := ih
      (s.withRate (decayedRate s.troveManager.baseRate ((timestamp - s.troveManager.lastFeeOperationTime) / 60))
        (clockAfter s.troveManager.lastFeeOperationTime timestamp))
      ((decayedRate_le _ _).trans hrate) hsorted'
    refine ⟨(timestamp - s.troveManager.lastFeeOperationTime) / 60 + more, s', passed, ?_, hpassed, ?_⟩
    · rw [decayCalls, minutesPassed_eq htime, ok_bind, hcall, ok_bind, hmore]
      rfl
    · rw [secondsLost]
      simp only [System.withRate] at hsum
      split_ifs with hshort
      · rw [clockAfter_short hshort] at hsum
        omega
      · rw [clockAfter_minute (Nat.not_lt.1 hshort)] at hsum
        omega

/-- **Decay under borrowing traffic.** The minutes that the borrowings apply and those that have passed since are all of
the minutes iff the seconds lost at the resets of the clock are less than one. -/
theorem decay_minutes (c : Config) (s : System) (hrate : s.troveManager.baseRate ≤ DECIMAL_PRECISION) (times : List ℕ) (T : ℕ)
    (hsorted : (s.troveManager.lastFeeOperationTime :: (times ++ [T])).Pairwise (· ≤ ·)) :
    ∃ applied s' passed, decayCalls c s times = .ok (applied, s') ∧ minutesPassedSinceLastFeeOp s' T = .ok passed ∧
      (applied + passed = (T - s.troveManager.lastFeeOperationTime) / 60 ↔
        secondsLost s.troveManager.lastFeeOperationTime times T < 60) := by
  obtain ⟨applied, s', passed, hcalls, hpassed, hsum⟩ := decayCalls_minutes (c := c) s times T hrate hsorted
  refine ⟨applied, s', passed, hcalls, hpassed, ?_⟩
  rw [← hsum]
  omega

/-- Bob has redeemed what Alice owed -/
def aliceRedeemed : List (Tx exampleConfig) :=
  twoTroves ++ [atPrice (2000 * 10 ^ 18) bob (.redeemCollateral ⟨1005 * 10 ^ 15, 0, ⟨0, 0, 0⟩, 0, 10 ^ 18⟩)]

/-- a borrowing every minute: nothing is lost -/
theorem decay_minutes_regular :
    ∃ applied s' passed,
      decayCalls exampleConfig (reached exampleConfig aliceRedeemed) [BOOTSTRAP_PERIOD + 60, BOOTSTRAP_PERIOD + 120] =
          .ok (applied, s') ∧
        minutesPassedSinceLastFeeOp s' (BOOTSTRAP_PERIOD + 200) = .ok passed ∧
        (applied + passed =
            (BOOTSTRAP_PERIOD + 200 - (reached exampleConfig aliceRedeemed).troveManager.lastFeeOperationTime) / 60 ↔
          secondsLost (reached exampleConfig aliceRedeemed).troveManager.lastFeeOperationTime
            [BOOTSTRAP_PERIOD + 60, BOOTSTRAP_PERIOD + 120] (BOOTSTRAP_PERIOD + 200) < 60) :=
  decay_minutes exampleConfig (reached exampleConfig aliceRedeemed) (by decide +kernel) _ _ (by decide +kernel)

/-- two minutes with a borrowing after 119 seconds: only one minute is counted -/
theorem decay_slowed :
    let s := reached exampleConfig aliceRedeemed
    0 < s.troveManager.baseRate ∧ s.troveManager.lastFeeOperationTime = BOOTSTRAP_PERIOD ∧
      ∃ applied s' passed, decayCalls exampleConfig s [BOOTSTRAP_PERIOD + 119] = .ok (applied, s') ∧
        minutesPassedSinceLastFeeOp s' (BOOTSTRAP_PERIOD + 120) = .ok passed ∧
        applied + passed = 1 ∧ (BOOTSTRAP_PERIOD + 120 - s.troveManager.lastFeeOperationTime) / 60 = 2 := by
  intro s
  have hclock : s.troveManager.lastFeeOperationTime = BOOTSTRAP_PERIOD := by decide +kernel
  obtain ⟨applied, s', passed, hcalls, hpassed, hsum⟩ := decayCalls_minutes (c := exampleConfig) s [BOOTSTRAP_PERIOD + 119]
    (BOOTSTRAP_PERIOD + 120) (by decide +kernel) (by rw [hclock]; decide)
  refine ⟨by decide +kernel, hclock, applied, s', passed, hcalls, hpassed, ?_, by rw [hclock]; decide⟩
  have hlost : secondsLost BOOTSTRAP_PERIOD [BOOTSTRAP_PERIOD + 119] (BOOTSTRAP_PERIOD + 120) = 60 := by decide
  rw [hclock, hlost] at hsum
  omega

/-! ## What keeps the base rate -/

/-- the base rate and its clock are as they were -/
structure SameRate (s s' : System) : Prop where
  baseRate : s'.troveManager.baseRate = s.troveManager.baseRate
  clock : s'.troveManager.lastFeeOperationTime = s.troveManager.lastFeeOperationTime

namespace SameRate

theorem refl (s : System) : SameRate s s := ⟨rfl, rfl⟩

theorem trans (h : SameRate s s₁) (h' : SameRate s₁ s') : SameRate s s' :=
  ⟨h'.baseRate.trans h.baseRate, h'.clock.trans h.clock⟩

theorem of_eq (h : s'.troveManager = s.troveManager) : SameRate s s' := by
  constructor <;> rw [h]

/-- the state before differs elsewhere -/
theorem congr_left (h : SameRate s₁ s') (hrate : s₁.troveManager.baseRate = s.troveManager.baseRate)
    (hclock : s₁.troveManager.lastFeeOperationTime = s.troveManager.lastFeeOperationTime) : SameRate s s' :=
  ⟨h.baseRate.trans hrate, h.clock.trans hclock⟩

theorem of_manager {tm : TroveManager} (h : s'.troveManager = tm) (hrate : tm.baseRate = s.troveManager.baseRate)
    (hclock : tm.lastFeeOperationTime = s.troveManager.lastFeeOperationTime) : SameRate s s' := by
  constructor <;> rw [h] <;> assumption

end SameRate

section Tokens

variable {caller src dst account : Address} {amount : ℕ}

theorem transferWSTETH_rate (h : transferWSTETH s src dst amount = .ok s') : SameRate s s' := by
  obtain ⟨t, -, rfl⟩ := transferWSTETH_ok h
  exact ⟨rfl, rfl⟩

theorem transferFromWSTETH_rate (h : transferFromWSTETH s caller src dst amount = .ok s') : SameRate s s' := by
  obtain ⟨t, -, rfl⟩ := transferFromWSTETH_ok h
  exact ⟨rfl, rfl⟩

theorem sendWSTETH_rate (h : ActivePool.sendWSTETH c caller s account amount = .ok s') : SameRate s s' := by
  obtain ⟨-, t, -, hn⟩ := ActivePool.sendWSTETH_ok h
  exact .of_eq hn.troveManager

theorem activePoolAddColl_rate (h : activePoolAddColl c s amount = .ok s') : SameRate s s' := by
  obtain ⟨s₁, h1, h⟩ := bind_ok.1 h
  obtain rfl := ActivePool.receiveWSTETH_ok h
  exact (transferWSTETH_rate h1).trans (.of_eq rfl)

theorem issueSIM_rate {SIMAmount : ℕ} (h : issueSIM c s account SIMAmount amount = .ok s') : SameRate s s' := by
  obtain ⟨s₁, h1, h⟩ := bind_ok.1 h
  obtain rfl := ActivePool.increaseSIMDebt_ok h1
  obtain ⟨t, -, rfl⟩ := SIMToken.mint_ok h
  exact ⟨rfl, rfl⟩

theorem burnSIM_rate (h : burnSIM c s account amount = .ok s') : SameRate s s' := by
  obtain ⟨s₁, h1, h⟩ := bind_ok.1 h
  obtain ⟨-, rfl⟩ := ActivePool.decreaseSIMDebt_ok h1
  obtain ⟨t, -, rfl⟩ := SIMToken.burn_ok h
  exact ⟨rfl, rfl⟩

theorem moveTokens_rate {x : TroveChange} {SIMChange : ℕ}
    (h : moveTokensAndWSTETHfromAdjustment c s account x SIMChange = .ok s') : SameRate s s' := by
  obtain ⟨s₁, h1, h⟩ := bind_ok.1 h
  have hSIM : SameRate s s₁ := by
    unfold moveSIM at h1
    split_ifs at h1
    · exact issueSIM_rate h1
    · exact burnSIM_rate h1
  refine hSIM.trans ?_
  unfold moveColl at h
  split_ifs at h
  · exact activePoolAddColl_rate h
  · exact sendWSTETH_rate h

theorem accountCollSurplus_rate (h : accountCollSurplus c s account amount = .ok s') : SameRate s s' := by
  unfold accountCollSurplus at h
  split_ifs at h
  · obtain rfl := CollSurplusPool.accountSurplus_ok h
    exact ⟨rfl, rfl⟩
  · cases h
    exact .refl s

theorem redeemCloseTrove_rate (h : redeemCloseTrove c s account amount = .ok s') : SameRate s s' := by
  obtain ⟨s₁, h1, h⟩ := bind_ok.1 h
  obtain rfl := CollSurplusPool.accountSurplus_ok h1
  exact (sendWSTETH_rate h).congr_left rfl rfl

theorem offset_rate {debt coll : ℕ} (h : StabilityPool.offset c env caller s debt coll = .ok s') : SameRate s s' := by
  rcases offset_steps h with ⟨-, rfl⟩ | ⟨-, -, issued, pool, t, -, -, hsent⟩
  · exact .refl s'
  · exact (sendWSTETH_rate hsent).congr_left rfl rfl

theorem sendCollSurplus_rate (h : sendCollSurplus c s amount = .ok s') : SameRate s s' := by
  unfold sendCollSurplus at h
  split_ifs at h
  · exact sendWSTETH_rate h
  · cases h
    exact .refl s

theorem sendGasCompensation_rate (h : sendGasCompensation c s account amount = .ok s') : SameRate s s' := by
  unfold sendGasCompensation at h
  split_ifs at h
  · exact sendWSTETH_rate h
  · cases h
    exact .refl s

theorem sendGain_rate (h : StabilityPool.sendGain c s account amount = .ok s') : SameRate s s' := by
  unfold StabilityPool.sendGain at h
  split_ifs at h
  · cases h
    exact .refl s
  · exact transferWSTETH_rate h

theorem sendSIM_rate (h : StabilityPool.sendSIM c s account amount = .ok s') : SameRate s s' := by
  unfold StabilityPool.sendSIM at h
  split_ifs at h
  · cases h
    exact .refl s
  · obtain ⟨t, -, rfl⟩ := SIMToken.returnFromPool_ok h
    exact ⟨rfl, rfl⟩

end Tokens

section Records

variable {b : Address} {coll debt amount : ℕ}

theorem TroveManager.Moved.rate {SIM WSTETH : ℕ} (h : Moved c s s' SIM WSTETH) : SameRate s s' := .of_eq h.same.1

theorem settlePendingRewards_rate (h : settlePendingRewards c s b = .ok s') : SameRate s s' := by
  rcases settlePendingRewards_ok h with ⟨-, rfl⟩ | ⟨-, pw, pd, -, -, hmoved⟩
  · exact .refl s'
  · exact hmoved.rate.congr_left rfl rfl

theorem BorrowerOperations.Edited.rate (h : Edited s s' b coll debt) : SameRate s s' := by
  obtain ⟨stake, -, -, htm⟩ := h.stake
  exact .of_manager htm rfl rfl

theorem BorrowerOperations.Created.rate {NICR : ℕ} (h : Created s s' b coll debt NICR) : SameRate s s' := by
  obtain ⟨stake, -, -, htm⟩ := h.stake
  exact .of_manager htm rfl rfl

theorem Closed.rate {status : Status} (h : Closed s s' b status) : SameRate s s' := .of_manager h.troveManager rfl rfl

theorem TroveManager.Liquidated.rate {v : LiquidationValues} {SIMInStabPool : ℕ} (h : Liquidated c s s' b v SIMInStabPool) :
    SameRate s s' := by
  obtain ⟨t, s₁, s₂, s₃, -, -, -, hmoved, hstake, hshut, hsurplus⟩ := h.steps
  exact hmoved.rate.trans ((shut_closed hstake hshut).rate.trans (accountCollSurplus_rate hsurplus))

theorem TroveManager.Sequence.rate {v v' : LiquidationSequence} (h : Sequence c v v') : SameRate v.s v'.s := by
  induction h with
  | refl => exact .refl _
  | tail _ hstep ih =>
    obtain ⟨user, single, hstep⟩ := hstep
    refine ih.trans ?_
    rcases hstep.state with ⟨hs, rfl⟩ | ⟨-, hl⟩
    · rw [hs]
      exact .refl _
    · exact hl.rate

theorem finishLiquidation_rate {sender : Address} {t : LiquidationTotals} (h : finishLiquidation c env sender s t = .ok s') :
    SameRate s s' := by
  obtain ⟨s₁, s₂, s₃, s₄, hs⟩ := finishLiquidation_ok h
  have hred : SameRate s₁ s₂ := by
    rcases redistributeDebtAndColl_ok hs.redistributed with ⟨-, rfl⟩ | ⟨-, hred⟩
    · exact .refl _
    · obtain ⟨rw, ew, rd, ed, u, -, -, -, rfl⟩ := hred.state
      exact ⟨rfl, rfl⟩
  have hsnapshot : SameRate s₃ s₄ := by
    obtain ⟨-, rfl⟩ := updateSystemSnapshots_ok hs.snapshot
    exact ⟨rfl, rfl⟩
  exact (offset_rate hs.offset).trans (hred.trans ((sendCollSurplus_rate hs.surplus).trans
    (hsnapshot.trans (sendGasCompensation_rate hs.compensation))))

theorem liquidation_rate {sender : Address} {totals : ℕ → Bool → Res LiquidationSequence} {price : ℕ} {mode : Bool}
    {v : LiquidationSequence} (h : LiquidationSteps c env sender s totals price mode v s') : SameRate s s' := by
  obtain ⟨debt, coll, hseq⟩ := h.sequence
  exact (TroveManager.Sequence.rate hseq).trans (finishLiquidation_rate h.finished)

theorem closeTrove_rate {sender : Address} (h : BorrowerOperations.closeTrove c env sender s = .ok s') : SameRate s s' := by
  obtain ⟨price, s₁, s₂, s₃, s₄, hs⟩ := closeTrove_ok h
  exact (settlePendingRewards_rate hs.settled).trans ((shut_closed hs.unstaked hs.shut).rate.trans
    ((burnSIM_rate hs.burned).trans (sendWSTETH_rate hs.sent)))

end Records

/-! ## The base rate over runs -/

/-- a transaction at `timestamp`: the rate stays a fraction, and the clock is left alone or set -/
structure RateStep (timestamp : ℕ) (s s' : System) : Prop where
  fraction : s.troveManager.baseRate ≤ DECIMAL_PRECISION → s'.troveManager.baseRate ≤ DECIMAL_PRECISION
  clock : s'.troveManager.lastFeeOperationTime = s.troveManager.lastFeeOperationTime ∨
    s'.troveManager.lastFeeOperationTime = timestamp

theorem SameRate.step (h : SameRate s s') : RateStep timestamp s s' := ⟨fun hle => h.baseRate.trans_le hle, .inl h.clock⟩

theorem RateStep.trans (h : RateStep timestamp s s₁) (h' : RateStep timestamp s₁ s') : RateStep timestamp s s' := by
  refine ⟨fun hle => h'.fraction (h.fraction hle), ?_⟩
  rcases h'.clock with hclock | hclock
  · rw [hclock]
    exact h.clock
  · exact .inr hclock

theorem updateLastFeeOpTime_rate (h : updateLastFeeOpTime s timestamp = .ok s') :
    s'.troveManager.baseRate = s.troveManager.baseRate ∧ (s'.troveManager.lastFeeOperationTime =
      s.troveManager.lastFeeOperationTime ∨ s'.troveManager.lastFeeOperationTime = timestamp) := by
  simp only [updateLastFeeOpTime, usub_bind] at h
  obtain ⟨-, h⟩ := h
  split_ifs at h
  · cases h
    exact ⟨rfl, .inr rfl⟩
  · cases h
    exact ⟨rfl, .inl rfl⟩

theorem decayBaseRateFromBorrowing_rate {caller : Address}
    (h : decayBaseRateFromBorrowing c caller s timestamp = .ok s') : RateStep timestamp s s' := by
  simp only [decayBaseRateFromBorrowing, requireCallerIsBorrowerOperations, require_bind] at h
  obtain ⟨-, h⟩ := h
  obtain ⟨r, -, h⟩ := bind_ok.1 h
  simp only [assert_bind] at h
  obtain ⟨hle, h⟩ := h
  obtain ⟨hrate, hclock⟩ := updateLastFeeOpTime_rate h
  exact ⟨fun _ => hrate.trans_le hle, hclock⟩

theorem updateBaseRateFromRedemption_rate {drawn price supply : ℕ}
    (h : updateBaseRateFromRedemption s drawn price supply timestamp = .ok s') : RateStep timestamp s s' := by
  obtain ⟨r, -, h⟩ := bind_ok.1 h
  simp only [umul_bind, udiv_bind, uadd_bind, assert_bind] at h
  obtain ⟨-, -, -, -, h⟩ := h
  obtain ⟨hrate, hclock⟩ := updateLastFeeOpTime_rate h
  exact ⟨fun _ => hrate.trans_le (min_le_right _ _), hclock⟩

theorem chargeFee_rate {charged : Bool} {SIMAmount maxFee netDebt : ℕ}
    (h : chargeFee c env s charged SIMAmount maxFee = .ok (s', netDebt)) : RateStep env.timestamp s s' := by
  unfold chargeFee at h
  split_ifs at h with hc
  · obtain ⟨⟨s₁, fee⟩, h1, h⟩ := bind_ok.1 h
    simp only [uadd_bind, pure_ok, Prod.mk.injEq] at h
    obtain ⟨-, rfl, rfl⟩ := h
    obtain ⟨s₂, t, t', hdecay, -, -, rfl⟩ := triggerBorrowingFee_ok h1
    have hstep := decayBaseRateFromBorrowing_rate hdecay
    exact ⟨hstep.fraction, hstep.clock⟩
  · cases h
    exact (SameRate.refl s).step

theorem openTrove_rate {sender p n : Address} {amount maxFee SIMAmount : ℕ}
    (h : openTrove c env sender s amount maxFee SIMAmount p n = .ok s') : RateStep env.timestamp s s' := by
  obtain ⟨price, mode, s₁, s₂, s₃, s₄, netDebt, hs⟩ := openTrove_ok h
  obtain ⟨ICR, NICR, -, -, -, hc⟩ := hs.created
  refine (transferFromWSTETH_rate hs.received).step.trans ((chargeFee_rate hs.fee).trans ?_)
  exact (hc.rate.trans ((activePoolAddColl_rate hs.added).trans (issueSIM_rate hs.issued))).step

theorem adjust_rate {sender b : Address} {a : AdjustArgs} (h : adjust c env sender s b a = .ok s') :
    RateStep env.timestamp s s' := by
  obtain ⟨price, mode, s₁, s₂, s₃, net, hs⟩ := adjust_ok h
  refine (settlePendingRewards_rate hs.settled).step.trans ((chargeFee_rate hs.fee).trans ?_)
  exact (hs.edited.rate.trans (moveTokens_rate hs.moved)).step

/-! ### Redemptions -/

section Redemption

variable {price n : ℕ} {hint : PartialRedemptionHint} {t t' : RedemptionTotals} {user b : Address} {amount : ℕ}

theorem redeemCollateralFromTrove_rate {maxSIMamount : ℕ} {w : SingleRedemptionValues}
    (h : redeemCollateralFromTrove c s b maxSIMamount price hint = .ok (s', w)) : SameRate s s' := by
  obtain ⟨-, hcase⟩ := redeemCollateralFromTrove_ok h
  rcases hcase with ⟨-, -, s₂, s₃, h2, h3, h4⟩ | ⟨-, NICR, -, ⟨-, rfl, -⟩ | ⟨-, -, -, hedit⟩⟩
  · exact (shut_closed h2 h3).rate.trans (redeemCloseTrove_rate h4)
  · exact .refl s'
  · exact hedit.rate

/-- what a walk has redeemed and drawn so far: it leaves the base rate alone, and the collateral drawn is worth at most
the SIM redeemed -/
structure Drawn (s : System) (price amount : ℕ) (t : RedemptionTotals) : Prop where
  rate : SameRate s t.s
  sum : t.totalSIMToRedeem + t.remainingSIM = amount
  worth : t.totalWSTETHDrawn * price ≤ t.totalSIMToRedeem * DECIMAL_PRECISION

theorem Drawn.start (s : System) (price amount : ℕ) : Drawn s price amount ⟨s, amount, 0, 0⟩ :=
  ⟨.refl s, Nat.zero_add _, by simp⟩

theorem redeemLoop_drawn (ht : Drawn s price amount t) (h : redeemLoop c price hint n user t = .ok t') :
    Drawn s price amount t' := by
  refine redeemLoop_rel (R := fun t t' => Drawn s price amount t → Drawn s price amount t') (fun _ ht => ht)
    (fun h h' ht => h' (h ht)) (fun {_ t _ _ w _} hround ht => ?_) h ht
  have hrate := ht.rate.trans ((settlePendingRewards_rate hround.settled).trans
    (redeemCollateralFromTrove_rate hround.redeemed))
  obtain ⟨hamounts, -⟩ := redeemCollateralFromTrove_ok hround.redeemed
  obtain ⟨-, rfl⟩ | ⟨-, hle, rfl⟩ := hround.counted
  · exact ⟨hrate, ht.sum, ht.worth⟩
  · refine ⟨hrate, ?_, ?_⟩
    · have hsum := ht.sum
      dsimp only
      omega
    · have hlot : w.WSTETHLot * price ≤ w.SIMLot * DECIMAL_PRECISION := by
        rw [hamounts.WSTETHLot]
        exact Nat.div_mul_le_self _ _
      dsimp only
      rw [Nat.add_mul, Nat.add_mul]
      exact Nat.add_le_add ht.worth hlot

end Redemption

theorem finishRedemption_rate {sender : Address} {price maxFee supply : ℕ} {t : RedemptionTotals}
    (h : finishRedemption c env sender price maxFee supply t = .ok s') : RateStep env.timestamp t.s s' := by
  obtain ⟨fee, s₁, s₂, s₃, s₄, hrate, hs⟩ := finishRedemption_updated h
  have hpaid := sendWSTETH_rate hs.paid
  obtain ⟨u, -, rfl⟩ := SIMToken.burn_ok hs.burned
  obtain ⟨-, rfl⟩ := ActivePool.decreaseSIMDebt_ok hs.cancelled
  exact (updateBaseRateFromRedemption_rate hrate).trans
    ((sendWSTETH_rate hs.feeSent).trans (hpaid.congr_left rfl rfl)).step

theorem redeemCollateral_rate {sender : Address} {a : RedeemArgs} (h : redeemCollateral c env sender s a = .ok s') :
    RateStep env.timestamp s s' := by
  obtain ⟨price, supply, user, t, hs⟩ := redeemCollateral_ok h
  have hdrawn := redeemLoop_drawn (.start s price a.SIMamount) hs.loop
  exact hdrawn.rate.step.trans (finishRedemption_rate hs.finish)

/-! ### All calls -/

theorem exec_rate {tx : Tx c} (h : exec c s tx = .ok s') : RateStep tx.env.timestamp s s' := by
  obtain ⟨env, sender, call⟩ := tx
  unfold exec at h
  cases call with
  | openTrove amount maxFee SIMAmount p n => exact openTrove_rate h
  | addColl amount p n =>
    obtain ⟨s₁, h1, h⟩ := bind_ok.1 h
    exact (transferFromWSTETH_rate h1).step.trans (adjust_rate h)
  | withdrawColl w p n => exact adjust_rate h
  | withdrawSIM maxFee SIMAmount p n => exact adjust_rate h
  | repaySIM SIMAmount p n => exact adjust_rate h
  | adjustTrove amount args =>
    obtain ⟨s₁, h1, h⟩ := bind_ok.1 h
    unfold receiveColl at h1
    split_ifs at h1
    · exact (transferFromWSTETH_rate h1).step.trans (adjust_rate h)
    · cases h1
      exact adjust_rate h
  | closeTrove => exact (closeTrove_rate h).step
  | claimCollateral =>
    obtain ⟨-, t, -, rfl⟩ := CollSurplusPool.claimColl_ok h
    exact SameRate.step ⟨rfl, rfl⟩
  | liquidate borrower =>
    obtain ⟨price, mode, v, hl⟩ := liquidate_ok h
    exact (liquidation_rate hl).step
  | liquidateTroves n =>
    obtain ⟨price, mode, v, hl⟩ := liquidateTroves_ok h
    exact (liquidation_rate hl).step
  | batchLiquidateTroves troveArray =>
    obtain ⟨price, mode, v, hl⟩ := batchLiquidateTroves_ok h
    exact (liquidation_rate hl).step
  | redeemCollateral args => exact redeemCollateral_rate h
  | provideToSP amount =>
    obtain ⟨issued, pool, payout, s₁, hs⟩ := StabilityPool.provideToSP_ok h
    have hgain := sendGain_rate hs.paid
    obtain ⟨t, -, rfl⟩ := SIMToken.sendToPool_ok hs.received
    exact SameRate.step (hgain.congr_left rfl rfl)
  | withdrawFromSP amount =>
    obtain ⟨ICR, issued, pool, payout, s₁, hs⟩ := StabilityPool.withdrawFromSP_ok h
    exact ((sendSIM_rate hs.sent).trans ((sendGain_rate hs.paid).congr_left rfl rfl)).step
  | withdrawWSTETHGainToTrove p n =>
    obtain ⟨pool, t, s₁, -, -, -, rfl, h⟩ := withdrawWSTETHGainToTrove_ok h
    have hstep := adjust_rate h
    exact ⟨hstep.fraction, hstep.clock⟩
  | transferSIM recipient amount =>
    obtain ⟨-, t, -, rfl⟩ := SIMToken.transfer_ok h
    exact SameRate.step ⟨rfl, rfl⟩
  | transferFromSIM src recipient amount =>
    obtain ⟨-, t, -, rfl⟩ := SIMToken.transferFrom_ok h
    exact SameRate.step ⟨rfl, rfl⟩
  | transferWSTETH recipient amount => exact (transferWSTETH_rate h).step
  | transferFromWSTETH src recipient amount => exact (transferFromWSTETH_rate h).step
  | approveSIM spender amount | approveWSTETH spender amount | mintWSTETH amount | burnWSTETH amount =>
    obtain ⟨t, -, h⟩ := bind_ok.1 h
    cases h
    exact SameRate.step ⟨rfl, rfl⟩

/-- **The base rate is a fraction**, and its clock is not ahead of the last transaction. -/
theorem reached_rate (calls : List (Tx c)) : (reached c calls).troveManager.baseRate ≤ DECIMAL_PRECISION ∧
    ∀ now, (∀ tx ∈ calls, tx.env.timestamp ≤ now) → (reached c calls).troveManager.lastFeeOperationTime ≤ now := by
  induction calls using List.reverseRecOn with
  | nil => exact ⟨Nat.zero_le _, fun now _ => Nat.zero_le _⟩
  | append_singleton calls tx ih =>
    rw [reached, run_snoc]
    cases hexec : exec c (run (exec c) (init c) calls) tx with
    | error e => exact ⟨ih.1, fun now hnow => ih.2 now fun tx htx => hnow tx (List.mem_append_left _ htx)⟩
    | ok s' =>
      have hstep := exec_rate hexec
      refine ⟨hstep.fraction ih.1, fun now hnow => ?_⟩
      rcases hstep.clock with hclock | hclock
      · exact hclock.trans_le (ih.2 now fun tx htx => hnow tx (List.mem_append_left _ htx))
      · exact hclock.trans_le (hnow tx (by simp))

/-! ## The rate after a redemption -/

/-- the first part of `redeemCollateral`: the price, the debt at the start, and what the walk redeems and draws -/
def redemptionWalk (c : Config) (env : Env) (sender : Address) (s : System) (a : RedeemArgs) :
    Res (ℕ × ℕ × RedemptionTotals) := do
  requireValidMaxFeePercentage a.maxFeePercentage
  requireAfterBootstrapPeriod env
  let price ← env.fetchPrice
  requireTCRoverMCR s price
  require (0 < a.SIMamount) "TroveManager: Amount must be greater than zero"
  require (a.SIMamount ≤ s.sim.balanceOf sender)
    "TroveManager: Requested redemption amount must be <= user's SIM token balance"
  let totalSIMSupplyAtStart ← getEntireSystemDebt s
  assert (s.sim.balanceOf sender ≤ totalSIMSupplyAtStart)
  let currentBorrower ← firstBorrower s price a.firstRedemptionHint
  let t ← redeemLoop c price a.hint (iterationCap a.maxIterations) currentBorrower
    { s, remainingSIM := a.SIMamount, totalSIMToRedeem := 0, totalWSTETHDrawn := 0 }
  pure (price, totalSIMSupplyAtStart, t)

theorem redeemCollateral_eq (c : Config) (env : Env) (sender : Address) (s : System) (a : RedeemArgs) :
    redeemCollateral c env sender s a = (do
      let (price, totalSIMSupplyAtStart, t) ← redemptionWalk c env sender s a
      finishRedemption c env sender price a.maxFeePercentage totalSIMSupplyAtStart t) := by
  simp only [redeemCollateral, redemptionWalk, bind_assoc, pure_bind]

/-- what a total ratio of at least MCR says about a debt -/
theorem requireTCRoverMCR_ok {price supply : ℕ} (hTCR : requireTCRoverMCR s price = .ok ())
    (hsupply : getEntireSystemDebt s = .ok supply) (hpos : 0 < supply) :
    ∃ coll, coll * price < 2 ^ 256 ∧ MCR ≤ coll * price / supply := by
  obtain ⟨TCR, hTCR, hMCR⟩ := bind_ok.1 hTCR
  obtain ⟨coll, -, hTCR⟩ := bind_ok.1 hTCR
  obtain ⟨debt, hdebt, hTCR⟩ := bind_ok.1 hTCR
  cases hdebt.symm.trans hsupply
  rw [computeCR, if_pos hpos] at hTCR
  simp only [umul_bind, udiv_ok] at hTCR
  obtain ⟨hlt, -, rfl⟩ := hTCR
  exact ⟨coll, hlt, require_ok.1 hMCR⟩

/-- what a walk that draws collateral knows: some debt, and collateral worth less than `2 ^ 256` -/
theorem redemptionWalk_ok {sender : Address} {a : RedeemArgs} {price supply : ℕ} {t : RedemptionTotals}
    (h : redemptionWalk c env sender s a = .ok (price, supply, t)) :
    SameRate s t.s ∧ 0 < supply ∧ t.totalWSTETHDrawn * price < 2 ^ 256 := by
  obtain ⟨_, -, h⟩ := bind_ok.1 h
  obtain ⟨_, -, h⟩ := bind_ok.1 h
  obtain ⟨price', -, h⟩ := bind_ok.1 h
  obtain ⟨_, hTCR, h⟩ := bind_ok.1 h
  simp only [require_bind] at h
  obtain ⟨hpos, hle, h⟩ := h
  obtain ⟨supply', hsupply, h⟩ := bind_ok.1 h
  simp only [assert_bind] at h
  obtain ⟨hle', h⟩ := h
  obtain ⟨user, -, h⟩ := bind_ok.1 h
  obtain ⟨t', hloop, h⟩ := bind_ok.1 h
  cases h
  have hdrawn := redeemLoop_drawn (.start s price a.SIMamount) hloop
  have hsupply_pos : 0 < supply := hpos.trans_le (hle.trans hle')
  refine ⟨hdrawn.rate, hsupply_pos, ?_⟩
  obtain ⟨coll, hlt, hMCR⟩ := requireTCRoverMCR_ok hTCR hsupply hsupply_pos
  calc
    t.totalWSTETHDrawn * price ≤ t.totalSIMToRedeem * DECIMAL_PRECISION := hdrawn.worth
    _ ≤ supply * MCR := Nat.mul_le_mul (by have := hdrawn.sum; omega) (by decide)
    _ ≤ supply * (coll * price / supply) := Nat.mul_le_mul_left _ hMCR
    _ ≤ coll * price := Nat.mul_div_le _ _
    _ < 2 ^ 256 := hlt

/-- the new rate: the decayed one and half of the fraction redeemed, at most 1 -/
def redeemedRate (s : System) (drawn price supply timestamp : ℕ) : ℕ :=
  min (decayedRate s.troveManager.baseRate ((timestamp - s.troveManager.lastFeeOperationTime) / 60) +
    drawn * price / supply / BETA) DECIMAL_PRECISION

theorem updateBaseRateFromRedemption_eq {drawn price supply : ℕ} (hrate : s.troveManager.baseRate ≤ DECIMAL_PRECISION)
    (htime : s.troveManager.lastFeeOperationTime ≤ timestamp) (hsupply : 0 < supply) (hworth : drawn * price < 2 ^ 256) :
    updateBaseRateFromRedemption s drawn price supply timestamp = .ok s' ↔
      0 < redeemedRate s drawn price supply timestamp ∧
        s.withRate (redeemedRate s drawn price supply timestamp)
          (clockAfter s.troveManager.lastFeeOperationTime timestamp) = s' := by
  have hdecayed := (decayedRate_le s.troveManager.baseRate ((timestamp - s.troveManager.lastFeeOperationTime) / 60)).trans hrate
  have hraised : drawn * price / supply / BETA ≤ drawn * price / 2 := Nat.div_le_div_right (Nat.div_le_self _ _)
  have hsum : decayedRate s.troveManager.baseRate ((timestamp - s.troveManager.lastFeeOperationTime) / 60) +
      drawn * price / supply / BETA < 2 ^ 256 := by
    unfold DECIMAL_PRECISION at hdecayed
    omega
  rw [updateBaseRateFromRedemption, calcDecayedBaseRate_eq hrate htime, ok_bind, umul_bind, udiv_bind, uadd_bind,
    assert_bind]
  have hset := updateLastFeeOpTime_eq (s := s.withRate (redeemedRate s drawn price supply timestamp)
    s.troveManager.lastFeeOperationTime) htime
  simp only [System.withRate, redeemedRate] at hset
  simp only [System.withRate, redeemedRate, hset, Except.ok.injEq]
  exact ⟨fun h => h.2.2.2, fun h => ⟨hworth, hsupply, hsum, h⟩⟩

/-- **The assertion of a redemption.** After a walk the new base rate passes iff some of the old one is left, or the
collateral drawn is worth at least `2 / 10 ^ 18` of the debt; it is then a positive fraction. -/
theorem redemption_rate (c : Config) (calls : List (Tx c)) (env : Env) (hclock : ∀ tx ∈ calls, tx.env.timestamp ≤ env.timestamp)
    (sender : Address) (a : RedeemArgs) (price supply : ℕ) (t : RedemptionTotals)
    (hwalk : redemptionWalk c env sender (reached c calls) a = .ok (price, supply, t)) :
    (∃ s', updateBaseRateFromRedemption t.s t.totalWSTETHDrawn price supply env.timestamp = .ok s' ∧
        0 < s'.troveManager.baseRate ∧ s'.troveManager.baseRate ≤ DECIMAL_PRECISION) ↔
      0 < decayedRate (reached c calls).troveManager.baseRate
          ((env.timestamp - (reached c calls).troveManager.lastFeeOperationTime) / 60) ∨
        BETA * supply ≤ t.totalWSTETHDrawn * price := by
  obtain ⟨hsame, hsupply, hworth⟩ := redemptionWalk_ok hwalk
  obtain ⟨hrate, hnow⟩ := reached_rate calls
  rw [← hsame.baseRate, ← hsame.clock]
  have hrate' : t.s.troveManager.baseRate ≤ DECIMAL_PRECISION := hsame.baseRate.trans_le hrate
  have htime : t.s.troveManager.lastFeeOperationTime ≤ env.timestamp := hsame.clock.trans_le (hnow env.timestamp hclock)
  have hpos : 0 < redeemedRate t.s t.totalWSTETHDrawn price supply env.timestamp ↔
      0 < decayedRate t.s.troveManager.baseRate ((env.timestamp - t.s.troveManager.lastFeeOperationTime) / 60) ∨
        BETA * supply ≤ t.totalWSTETHDrawn * price := by
    have hone : 0 < DECIMAL_PRECISION := by decide
    have hhalf : 0 < t.totalWSTETHDrawn * price / supply / BETA ↔ BETA * supply ≤ t.totalWSTETHDrawn * price := by
      rw [Nat.div_div_eq_div_mul, Nat.div_pos_iff, Nat.mul_comm supply]
      exact ⟨fun h => h.2, fun h => ⟨Nat.mul_pos (by decide) hsupply, h⟩⟩
    rw [redeemedRate, lt_min_iff, ← hhalf, Nat.add_pos_iff_pos_or_pos]
    exact ⟨fun h => h.1, fun h => ⟨h, hone⟩⟩
  rw [← hpos]
  constructor
  · rintro ⟨s', hs', -, -⟩
    exact ((updateBaseRateFromRedemption_eq hrate' htime hsupply hworth).1 hs').1
  · intro h
    exact ⟨_, (updateBaseRateFromRedemption_eq hrate' htime hsupply hworth).2 ⟨h, rfl⟩, h, min_le_right _ _⟩

/-- Bob redeems all of Alice's SIM -/
theorem redemption_rate_alice :
    ∃ price supply t,
      redemptionWalk exampleConfig (atPrice (2000 * 10 ^ 18) bob .closeTrove).env bob.address (reached exampleConfig twoTroves)
          ⟨1005 * 10 ^ 15, 0, ⟨0, 0, 0⟩, 0, 10 ^ 18⟩ = .ok (price, supply, t) ∧
        ((∃ s', updateBaseRateFromRedemption t.s t.totalWSTETHDrawn price supply BOOTSTRAP_PERIOD = .ok s' ∧
            0 < s'.troveManager.baseRate ∧ s'.troveManager.baseRate ≤ DECIMAL_PRECISION) ↔
          0 < decayedRate (reached exampleConfig twoTroves).troveManager.baseRate
              ((BOOTSTRAP_PERIOD - (reached exampleConfig twoTroves).troveManager.lastFeeOperationTime) / 60) ∨
            BETA * supply ≤ t.totalWSTETHDrawn * price) := by
  obtain ⟨⟨price, supply, t⟩, hwalk⟩ : ∃ x, redemptionWalk exampleConfig (atPrice (2000 * 10 ^ 18) bob .closeTrove).env
      bob.address (reached exampleConfig twoTroves) ⟨1005 * 10 ^ 15, 0, ⟨0, 0, 0⟩, 0, 10 ^ 18⟩ = .ok x :=
    Res.failure_none (by decide +kernel)
  exact ⟨price, supply, t, hwalk, redemption_rate exampleConfig twoTroves (atPrice (2000 * 10 ^ 18) bob .closeTrove).env
    (by decide) bob.address _ price supply t hwalk⟩

/-- 2000 of the smallest units of SIM for one of wstETH, with the ratio that Alice's trove is left with -/
def smallRedemption : RedeemArgs := ⟨2000, 0, ⟨0, 0, (10 ^ 15 - 1) * NICR_PRECISION / (1005 * 10 ^ 15 - 2000)⟩, 0, 10 ^ 18⟩

/-- a small redemption adds nothing to a base rate of 0 and reverts -/
theorem redemption_asserts :
    let s := reached exampleConfig twoTroves
    let env := (atPrice (2000 * 10 ^ 18) bob .closeTrove).env
    ∃ price supply t, redemptionWalk exampleConfig env bob.address s smallRedemption = .ok (price, supply, t) ∧
      0 < t.totalWSTETHDrawn ∧
      (updateBaseRateFromRedemption t.s t.totalWSTETHDrawn price supply env.timestamp).failure = some (.panic 0x01) ∧
      (redeemCollateral exampleConfig env bob.address s smallRedemption).failure = some (.panic 0x01) := by
  intro s env
  obtain ⟨⟨price, supply, t⟩, hwalk⟩ : ∃ x, redemptionWalk exampleConfig env bob.address s smallRedemption = .ok x :=
    Res.failure_none (by decide +kernel)
  have hcheck : (redemptionWalk exampleConfig env bob.address s smallRedemption).map (fun x =>
      (decide (0 < x.2.2.totalWSTETHDrawn),
        (updateBaseRateFromRedemption x.2.2.s x.2.2.totalWSTETHDrawn x.1 x.2.1 env.timestamp).failure)) =
      .ok (true, some (.panic 0x01)) := by
    decide +kernel
  rw [hwalk] at hcheck
  have hvalues := Except.ok.inj hcheck
  refine ⟨price, supply, t, hwalk, of_decide_eq_true (congrArg Prod.fst hvalues), congrArg Prod.snd hvalues, ?_⟩
  decide +kernel

end SimContracts.Protocol
