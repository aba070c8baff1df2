/-
Troves, stakes and redistribution rewards (`contracts/TroveManager.sol`).

A liquidated trove whose debt the Stability Pool does not cover is redistributed over all other troves in proportion to
their stakes: its collateral and debt go to the Default Pool, and the per-unit sums `L_WSTETH` and `L_SIMDebt` grow. A
trove's share since its own snapshot is its pending reward; `applyPendingRewards` adds it to the trove and moves it to
the Active Pool. `hasPendingRewards` looks at the collateral snapshot only.

The functions that only `BorrowerOperations` may call check their caller; the internal ones (`_name` in the source) do
not.
-/
import SimContracts.Protocol.Pools

namespace SimContracts.Protocol.TroveManager

open Solidity

def SECONDS_IN_ONE_MINUTE : ℕ := 60
/-- half-life of 12 hours -/
def MINUTE_DECAY_FACTOR : ℕ := 999037758833783000
def REDEMPTION_FEE_FLOOR : ℕ := DECIMAL_PRECISION / 1000 * 5
def MAX_BORROWING_FEE : ℕ := DECIMAL_PRECISION / 100 * 5
/-- 30 days -/
def BOOTSTRAP_PERIOD : ℕ := 30 * 86400
def BETA : ℕ := 2

variable (c : Config) (caller : Address) (s : System) (borrower : Address)

def requireCallerIsBorrowerOperations : Res Unit :=
  require (caller = c.borrowerOperations) "TroveManager: Caller is not the BorrowerOperations contract"

/-- `Troves[borrower] = t` -/
def writeTrove (t : Trove) : System :=
  { s with troveManager := { s.troveManager with Troves := Function.update s.troveManager.Troves borrower t } }

/-- `Troves[borrower]` -/
def trove : Trove := s.troveManager.Troves borrower

def requireTroveIsActive : Res Unit :=
  require ((trove s borrower).status = .active) "TroveManager: Trove does not exist or is closed"

/-! ## Setters for BorrowerOperations -/

def setTroveStatus (status : Status) : Res System := do
  requireCallerIsBorrowerOperations c caller
  pure (writeTrove s borrower { trove s borrower with status })

def increaseTroveColl (collIncrease : ℕ) : Res System := do
  requireCallerIsBorrowerOperations c caller
  let coll ← uadd (trove s borrower).coll collIncrease
  pure (writeTrove s borrower { trove s borrower with coll })

def decreaseTroveColl (collDecrease : ℕ) : Res System := do
  requireCallerIsBorrowerOperations c caller
  let coll ← usub (trove s borrower).coll collDecrease
  pure (writeTrove s borrower { trove s borrower with coll })

def increaseTroveDebt (debtIncrease : ℕ) : Res System := do
  requireCallerIsBorrowerOperations c caller
  let debt ← uadd (trove s borrower).debt debtIncrease
  pure (writeTrove s borrower { trove s borrower with debt })

def decreaseTroveDebt (debtDecrease : ℕ) : Res System := do
  requireCallerIsBorrowerOperations c caller
  let debt ← usub (trove s borrower).debt debtDecrease
  pure (writeTrove s borrower { trove s borrower with debt })

/-! ## Pending rewards -/

/-- a trove's share of what was redistributed per unit staked since its snapshot -/
def pendingReward (L snapshot : ℕ) (t : Trove) : Res ℕ := do
  let rewardPerUnitStaked ← usub L snapshot
  if rewardPerUnitStaked = 0 ∨ t.status ≠ .active then pure 0
  else udiv (← umul t.stake rewardPerUnitStaked) DECIMAL_PRECISION

def getPendingWSTETHReward : Res ℕ :=
  pendingReward s.troveManager.L_WSTETH (s.troveManager.rewardSnapshots borrower).WSTETH (trove s borrower)

def getPendingSIMDebtReward : Res ℕ :=
  pendingReward s.troveManager.L_SIMDebt (s.troveManager.rewardSnapshots borrower).SIMDebt (trove s borrower)

/-- the collateral snapshot alone decides -/
def hasPendingRewards : Bool :=
  (trove s borrower).status = .active ∧ (s.troveManager.rewardSnapshots borrower).WSTETH < s.troveManager.L_WSTETH

structure EntireTrove where
  debt : ℕ
  coll : ℕ
  pendingSIMDebtReward : ℕ
  pendingWSTETHReward : ℕ

def getEntireDebtAndColl : Res EntireTrove := do
  let pendingSIMDebtReward ← getPendingSIMDebtReward s borrower
  let pendingWSTETHReward ← getPendingWSTETHReward s borrower
  let debt ← uadd (trove s borrower).debt pendingSIMDebtReward
  let coll ← uadd (trove s borrower).coll pendingWSTETHReward
  pure { debt, coll, pendingSIMDebtReward, pendingWSTETHReward }

/-- collateral and debt with the pending rewards -/
def getCurrentTroveAmounts : Res (ℕ × ℕ) := do
  let pendingWSTETHReward ← getPendingWSTETHReward s borrower
  let pendingSIMDebtReward ← getPendingSIMDebtReward s borrower
  let currentWSTETH ← uadd (trove s borrower).coll pendingWSTETHReward
  let currentSIMDebt ← uadd (trove s borrower).debt pendingSIMDebtReward
  pure (currentWSTETH, currentSIMDebt)

def getNominalICR : Res ℕ := do
  let (currentWSTETH, currentSIMDebt) ← getCurrentTroveAmounts s borrower
  computeNominalCR currentWSTETH currentSIMDebt

def getCurrentICR (price : ℕ) : Res ℕ := do
  let (currentWSTETH, currentSIMDebt) ← getCurrentTroveAmounts s borrower
  computeCR currentWSTETH currentSIMDebt price

def movePendingTroveRewardsToActivePool (SIM WSTETH : ℕ) : Res System := do
  let s ← DefaultPool.decreaseSIMDebt c c.troveManager s SIM
  let s ← ActivePool.increaseSIMDebt c c.troveManager s SIM
  DefaultPool.sendWSTETHToActivePool c c.troveManager s WSTETH

/-- `_updateTroveRewardSnapshots` -/
def writeTroveRewardSnapshots : System :=
  { s with
    troveManager :=
      { s.troveManager with
        rewardSnapshots := Function.update s.troveManager.rewardSnapshots borrower
          ⟨s.troveManager.L_WSTETH, s.troveManager.L_SIMDebt⟩ } }

def updateTroveRewardSnapshots : Res System := do
  requireCallerIsBorrowerOperations c caller
  pure (writeTroveRewardSnapshots s borrower)

/-- `_applyPendingRewards` -/
def settlePendingRewards : Res System :=
  if hasPendingRewards s borrower then do
    requireTroveIsActive s borrower
    let pendingWSTETHReward ← getPendingWSTETHReward s borrower
    let pendingSIMDebtReward ← getPendingSIMDebtReward s borrower
    let coll ← uadd (trove s borrower).coll pendingWSTETHReward
    let debt ← uadd (trove s borrower).debt pendingSIMDebtReward
    let s := writeTrove s borrower { trove s borrower with coll, debt }
    let s := writeTroveRewardSnapshots s borrower
    movePendingTroveRewardsToActivePool c s pendingSIMDebtReward pendingWSTETHReward
  else .ok s

def applyPendingRewards : Res System := do
  requireCallerIsBorrowerOperations c caller
  settlePendingRewards c s borrower

/-! ## Stakes -/

/-- a new stake from the totals at the last liquidation -/
def computeNewStake (coll : ℕ) : Res ℕ :=
  if s.troveManager.totalCollateralSnapshot = 0 then .ok coll
  else do
    assert (0 < s.troveManager.totalStakesSnapshot)
    udiv (← umul coll s.troveManager.totalStakesSnapshot) s.troveManager.totalCollateralSnapshot

/-- the stake of `borrower` and the total, together -/
def writeStake (stake totalStakes : ℕ) : System :=
  let s := writeTrove s borrower { trove s borrower with stake }
  { s with troveManager := { s.troveManager with totalStakes } }

/-- `_updateStakeAndTotalStakes` -/
def recomputeStake : Res System := do
  let newStake ← computeNewStake s (trove s borrower).coll
  let totalStakes ← uadd (← usub s.troveManager.totalStakes (trove s borrower).stake) newStake
  pure (writeStake s borrower newStake totalStakes)

def updateStakeAndTotalStakes : Res System := do
  requireCallerIsBorrowerOperations c caller
  recomputeStake s borrower

/-- `_removeStake` -/
def clearStake : Res System := do
  let totalStakes ← usub s.troveManager.totalStakes (trove s borrower).stake
  pure (writeStake s borrower 0 totalStakes)

def removeStake : Res System := do
  requireCallerIsBorrowerOperations c caller
  clearStake s borrower

/-! ## Opening and closing -/

/-- `TroveOwners.push`; the index is cast to `uint128` -/
def addTroveOwnerToArray : Res System := do
  requireCallerIsBorrowerOperations c caller
  let TroveOwners := s.troveManager.TroveOwners ++ [borrower]
  let arrayIndex := (TroveOwners.length - 1) % 2 ^ 128
  let s := writeTrove s borrower { trove s borrower with arrayIndex }
  pure { s with troveManager := { s.troveManager with TroveOwners } }

/-- moves the last owner into the freed place -/
def removeTroveOwner (TroveOwnersArrayLength : ℕ) : Res System := do
  assert ((trove s borrower).status ≠ .nonExistent ∧ (trove s borrower).status ≠ .active)
  let index := (trove s borrower).arrayIndex
  let idxLast ← usub TroveOwnersArrayLength 1
  assert (index ≤ idxLast)
  inBounds idxLast s.troveManager.TroveOwners.length
  let addressToMove := s.troveManager.TroveOwners.getD idxLast 0
  let TroveOwners := (s.troveManager.TroveOwners.set index addressToMove).dropLast
  let s := writeTrove s addressToMove { trove s addressToMove with arrayIndex := index }
  pure { s with troveManager := { s.troveManager with TroveOwners } }

/-- status, collateral, debt and snapshots of a closed trove -/
def writeClosed (closedStatus : Status) : System :=
  let s := writeTrove s borrower { trove s borrower with status := closedStatus, coll := 0, debt := 0 }
  { s with
    troveManager :=
      { s.troveManager with
        rewardSnapshots := Function.update s.troveManager.rewardSnapshots borrower ⟨0, 0⟩ } }

/-- `sortedTroves.remove` -/
def removeFromList : Res System := do
  let sortedTroves ← SortedTroves.remove s.sortedTroves borrower
  pure { s with sortedTroves }

/-- `_closeTrove` -/
def shutTrove (closedStatus : Status) : Res System := do
  assert (closedStatus ≠ .nonExistent ∧ closedStatus ≠ .active)
  let TroveOwnersArrayLength := s.troveManager.TroveOwners.length
  require (1 < TroveOwnersArrayLength ∧ 1 < SortedTroves.getSize s.sortedTroves)
    "TroveManager: Only one trove in the system"
  let s := writeClosed s borrower closedStatus
  let s ← removeTroveOwner s borrower TroveOwnersArrayLength
  removeFromList s borrower

def closeTrove : Res System := do
  requireCallerIsBorrowerOperations c caller
  shutTrove s borrower .closedByOwner

/-! ## Redistribution -/

/-- the per-unit share of an amount and the floor error that is carried to the next redistribution -/
def perUnitStaked (amount lastError totalStakes : ℕ) : Res (ℕ × ℕ) := do
  let numerator ← uadd (← umul amount DECIMAL_PRECISION) lastError
  let rewardPerUnitStaked ← udiv numerator totalStakes
  let error ← usub numerator (← umul rewardPerUnitStaked totalStakes)
  pure (rewardPerUnitStaked, error)

/-- the running sums and errors after a redistribution -/
def accrueRewards (debt coll : ℕ) : Res System := do
  let tm := s.troveManager
  let (WSTETHRewardPerUnitStaked, lastWSTETHError_Redistribution) ←
    perUnitStaked coll tm.lastWSTETHError_Redistribution tm.totalStakes
  let (SIMDebtRewardPerUnitStaked, lastSIMDebtError_Redistribution) ←
    perUnitStaked debt tm.lastSIMDebtError_Redistribution tm.totalStakes
  let L_WSTETH ← uadd tm.L_WSTETH WSTETHRewardPerUnitStaked
  let L_SIMDebt ← uadd tm.L_SIMDebt SIMDebtRewardPerUnitStaked
  pure { s with
    troveManager :=
      { tm with lastWSTETHError_Redistribution, lastSIMDebtError_Redistribution, L_WSTETH, L_SIMDebt } }

def redistributeDebtAndColl (debt coll : ℕ) : Res System :=
  if debt = 0 then .ok s
  else do
    let s ← accrueRewards s debt coll
    let s ← ActivePool.decreaseSIMDebt c c.troveManager s debt
    let s ← DefaultPool.increaseSIMDebt c c.troveManager s debt
    ActivePool.sendWSTETH c c.troveManager s c.defaultPool coll

def updateSystemSnapshots_excludeCollRemainder (collRemainder : ℕ) : Res System := do
  let activeColl ← usub s.activePool.WSTETH collRemainder
  let totalCollateralSnapshot ← uadd activeColl s.defaultPool.WSTETH
  pure { s with
    troveManager :=
      { s.troveManager with totalStakesSnapshot := s.troveManager.totalStakes, totalCollateralSnapshot } }

/-! ## Base rate and fees -/

def minutesPassedSinceLastFeeOp (timestamp : ℕ) : Res ℕ := do
  udiv (← usub timestamp s.troveManager.lastFeeOperationTime) SECONDS_IN_ONE_MINUTE

def calcDecayedBaseRate (timestamp : ℕ) : Res ℕ := do
  let minutesPassed ← minutesPassedSinceLastFeeOp s timestamp
  let decayFactor ← decPow MINUTE_DECAY_FACTOR minutesPassed
  udiv (← umul s.troveManager.baseRate decayFactor) DECIMAL_PRECISION

/-- only after a full minute, so that frequent calls do not stop the decay -/
def updateLastFeeOpTime (timestamp : ℕ) : Res System := do
  let timePassed ← usub timestamp s.troveManager.lastFeeOperationTime
  if SECONDS_IN_ONE_MINUTE ≤ timePassed then
    pure { s with troveManager := { s.troveManager with lastFeeOperationTime := timestamp } }
  else pure s

def decayBaseRateFromBorrowing (timestamp : ℕ) : Res System := do
  requireCallerIsBorrowerOperations c caller
  let decayedBaseRate ← calcDecayedBaseRate s timestamp
  assert (decayedBaseRate ≤ DECIMAL_PRECISION)
  updateLastFeeOpTime { s with troveManager := { s.troveManager with baseRate := decayedBaseRate } } timestamp

def updateBaseRateFromRedemption (WSTETHDrawn price totalSIMSupply timestamp : ℕ) : Res System := do
  let decayedBaseRate ← calcDecayedBaseRate s timestamp
  let redeemedSIMFraction ← udiv (← umul WSTETHDrawn price) totalSIMSupply
  let newBaseRate ← uadd decayedBaseRate (redeemedSIMFraction / BETA)
  let newBaseRate := min newBaseRate DECIMAL_PRECISION
  assert (0 < newBaseRate)
  updateLastFeeOpTime { s with troveManager := { s.troveManager with baseRate := newBaseRate } } timestamp

def calcRedemptionRate (baseRate : ℕ) : Res ℕ := do
  pure (min (← uadd REDEMPTION_FEE_FLOOR baseRate) DECIMAL_PRECISION)

def getRedemptionFee (WSTETHDrawn : ℕ) : Res ℕ := do
  let redemptionRate ← calcRedemptionRate s.troveManager.baseRate
  let redemptionFee ← udiv (← umul redemptionRate WSTETHDrawn) DECIMAL_PRECISION
  require (redemptionFee < WSTETHDrawn) "TroveManager: Fee would eat up all returned collateral"
  pure redemptionFee

def calcBorrowingRate (baseRate : ℕ) : Res ℕ := do
  pure (min (← uadd BORROWING_FEE_FLOOR baseRate) MAX_BORROWING_FEE)

def getBorrowingFee (SIMDebt : ℕ) : Res ℕ := do
  let borrowingRate ← calcBorrowingRate s.troveManager.baseRate
  udiv (← umul borrowingRate SIMDebt) DECIMAL_PRECISION

end SimContracts.Protocol.TroveManager
