/-
Liquidations (`liquidate`, `liquidateTroves` and `batchLiquidateTroves` of `contracts/TroveManager.sol`, and the
`offset` of `StabilityPool.sol` they call).

A liquidation closes troves one by one and only adds up what becomes of them: debt to cancel against the Stability Pool
with the collateral for it, debt and collateral to redistribute, a surplus for the owner, gas compensation. The pools
are paid once at the end, for the whole sequence. There are four hand-written loops: troves from the tail of the list or
from an array, starting in recovery mode or not.
-/
import SimContracts.Protocol.Troves

namespace SimContracts.Protocol

open Solidity

/-! ## StabilityPool.offset -/

namespace StabilityPool

/-- the offset debt is cancelled with SIM of the pool, its collateral arrives -/
def moveOffsetCollAndDebt (c : Config) (s : System) (collToAdd debtToOffset : ℕ) : Res System := do
  let s ← ActivePool.decreaseSIMDebt c c.stabilityPool s debtToOffset
  let stabilityPool ← SimContracts.StabilityPool.decreaseSIM s.stabilityPool debtToOffset
  let s ← SIMToken.burn c c.stabilityPool { s with stabilityPool } c.stabilityPool debtToOffset
  ActivePool.sendWSTETH c c.stabilityPool s c.stabilityPool collToAdd

def offset (c : Config) (env : Env) (caller : Address) (s : System) (debtToOffset collToAdd : ℕ) : Res System := do
  require (caller = c.troveManager) "StabilityPool: Caller is not TroveManager"
  let totalSIM := s.stabilityPool.totalSIMDeposits
  if totalSIM = 0 ∨ debtToOffset = 0 then pure s
  else
    let issued ← env.issueSHADY
    let pool ← SimContracts.StabilityPool.triggerSHADYIssuance s.stabilityPool issued
    let (WSTETHGainPerUnitStaked, SIMLossPerUnitStaked, pool) ←
      SimContracts.StabilityPool.computeRewardsPerUnitStaked pool collToAdd debtToOffset totalSIM
    let pool ←
      SimContracts.StabilityPool.updateRewardSumAndProduct pool WSTETHGainPerUnitStaked SIMLossPerUnitStaked
    moveOffsetCollAndDebt c { s with stabilityPool := pool } collToAdd debtToOffset

end StabilityPool

namespace TroveManager

/-! ## Values of one liquidation and their totals -/

structure LiquidationValues where
  entireTroveDebt : ℕ
  entireTroveColl : ℕ
  collGasCompensation : ℕ
  debtToOffset : ℕ
  collToSendToSP : ℕ
  debtToRedistribute : ℕ
  collToRedistribute : ℕ
  collSurplus : ℕ
deriving DecidableEq, Repr

/-- a trove that is left alone -/
def LiquidationValues.zero : LiquidationValues := ⟨0, 0, 0, 0, 0, 0, 0, 0⟩

structure LiquidationTotals where
  totalCollInSequence : ℕ
  totalDebtInSequence : ℕ
  totalCollGasCompensation : ℕ
  totalDebtToOffset : ℕ
  totalCollToSendToSP : ℕ
  totalDebtToRedistribute : ℕ
  totalCollToRedistribute : ℕ
  totalCollSurplus : ℕ
deriving DecidableEq, Repr

def LiquidationTotals.zero : LiquidationTotals := ⟨0, 0, 0, 0, 0, 0, 0, 0⟩

def addLiquidationValuesToTotals (t : LiquidationTotals) (v : LiquidationValues) : Res LiquidationTotals := do
  let totalCollGasCompensation ← uadd t.totalCollGasCompensation v.collGasCompensation
  let totalDebtInSequence ← uadd t.totalDebtInSequence v.entireTroveDebt
  let totalCollInSequence ← uadd t.totalCollInSequence v.entireTroveColl
  let totalDebtToOffset ← uadd t.totalDebtToOffset v.debtToOffset
  let totalCollToSendToSP ← uadd t.totalCollToSendToSP v.collToSendToSP
  let totalDebtToRedistribute ← uadd t.totalDebtToRedistribute v.debtToRedistribute
  let totalCollToRedistribute ← uadd t.totalCollToRedistribute v.collToRedistribute
  let totalCollSurplus ← uadd t.totalCollSurplus v.collSurplus
  pure { totalCollInSequence, totalDebtInSequence, totalCollGasCompensation, totalDebtToOffset, totalCollToSendToSP,
         totalDebtToRedistribute, totalCollToRedistribute, totalCollSurplus }

/-- what the Stability Pool can cancel, and the rest -/
structure OffsetValues where
  debtToOffset : ℕ
  collToSendToSP : ℕ
  debtToRedistribute : ℕ
  collToRedistribute : ℕ

def getOffsetAndRedistributionVals (debt coll SIMInStabPool : ℕ) : Res OffsetValues :=
  if 0 < SIMInStabPool then do
    let debtToOffset := min debt SIMInStabPool
    let collToSendToSP ← udiv (← umul coll debtToOffset) debt
    let debtToRedistribute ← usub debt debtToOffset
    let collToRedistribute ← usub coll collToSendToSP
    pure { debtToOffset, collToSendToSP, debtToRedistribute, collToRedistribute }
  else .ok { debtToOffset := 0, collToSendToSP := 0, debtToRedistribute := debt, collToRedistribute := coll }

/-- a trove above 110% pays 110% of its debt, the rest is surplus -/
def getCappedOffsetVals (entireTroveDebt entireTroveColl price : ℕ) : Res LiquidationValues := do
  let cappedCollPortion ← udiv (← umul entireTroveDebt MCR) price
  let collGasCompensation := getCollGasCompensation cappedCollPortion
  let collToSendToSP ← usub cappedCollPortion collGasCompensation
  let collSurplus ← usub entireTroveColl cappedCollPortion
  pure { entireTroveDebt, entireTroveColl, collGasCompensation, debtToOffset := entireTroveDebt, collToSendToSP,
         debtToRedistribute := 0, collToRedistribute := 0, collSurplus }

/-! ## One trove -/

/-- the steps every liquidated trove goes through before it is closed -/
def collectTrove (c : Config) (s : System) (borrower : Address) (t : EntireTrove) : Res System := do
  let s ← movePendingTroveRewardsToActivePool c s t.pendingSIMDebtReward t.pendingWSTETHReward
  clearStake s borrower

def liquidateNormalMode (c : Config) (s : System) (borrower : Address) (SIMInStabPool : ℕ) :
    Res (System × LiquidationValues) := do
  let t ← getEntireDebtAndColl s borrower
  let s ← collectTrove c s borrower t
  let collGasCompensation := getCollGasCompensation t.coll
  let collToLiquidate ← usub t.coll collGasCompensation
  let v ← getOffsetAndRedistributionVals t.debt collToLiquidate SIMInStabPool
  let s ← shutTrove s borrower .closedByLiquidation
  pure (s, { entireTroveDebt := t.debt, entireTroveColl := t.coll, collGasCompensation,
             debtToOffset := v.debtToOffset, collToSendToSP := v.collToSendToSP,
             debtToRedistribute := v.debtToRedistribute, collToRedistribute := v.collToRedistribute,
             collSurplus := 0 })

/-- a surplus is recorded for the owner; it is sent at the end -/
def accountCollSurplus (c : Config) (s : System) (borrower : Address) (collSurplus : ℕ) : Res System :=
  if 0 < collSurplus then CollSurplusPool.accountSurplus c c.troveManager s borrower collSurplus else .ok s

def liquidateRecoveryMode (c : Config) (s : System) (borrower : Address) (ICR SIMInStabPool TCR price : ℕ) :
    Res (System × LiquidationValues) :=
  -- don't liquidate if last trove
  if s.troveManager.TroveOwners.length ≤ 1 then .ok (s, .zero)
  else do
    let t ← getEntireDebtAndColl s borrower
    let collGasCompensation := getCollGasCompensation t.coll
    let collToLiquidate ← usub t.coll collGasCompensation
    if ICR ≤ _100pct then
      -- purely redistribute
      let s ← collectTrove c s borrower t
      let s ← shutTrove s borrower .closedByLiquidation
      pure (s, { entireTroveDebt := t.debt, entireTroveColl := t.coll, collGasCompensation, debtToOffset := 0,
                 collToSendToSP := 0, debtToRedistribute := t.debt, collToRedistribute := collToLiquidate,
                 collSurplus := 0 })
    else if ICR < MCR then
      let s ← collectTrove c s borrower t
      let v ← getOffsetAndRedistributionVals t.debt collToLiquidate SIMInStabPool
      let s ← shutTrove s borrower .closedByLiquidation
      pure (s, { entireTroveDebt := t.debt, entireTroveColl := t.coll, collGasCompensation,
                 debtToOffset := v.debtToOffset, collToSendToSP := v.collToSendToSP,
                 debtToRedistribute := v.debtToRedistribute, collToRedistribute := v.collToRedistribute,
                 collSurplus := 0 })
    else if ICR < TCR ∧ t.debt ≤ SIMInStabPool then
      -- only offset, at a capped rate
      let s ← movePendingTroveRewardsToActivePool c s t.pendingSIMDebtReward t.pendingWSTETHReward
      assert (SIMInStabPool ≠ 0)
      let s ← clearStake s borrower
      let v ← getCappedOffsetVals t.debt t.coll price
      let s ← shutTrove s borrower .closedByLiquidation
      let s ← accountCollSurplus c s borrower v.collSurplus
      pure (s, v)
    else pure (s, .zero)

/-! ## Sequences -/

def checkPotentialRecoveryMode (entireSystemColl entireSystemDebt price : ℕ) : Res Bool := do
  pure (decide ((← computeCR entireSystemColl entireSystemDebt price) < CCR))

/-- the variables of a liquidation loop, with the state -/
structure LiquidationSequence where
  s : System
  totals : LiquidationTotals
  remainingSIMInStabPool : ℕ
  backToNormalMode : Bool
  entireSystemDebt : ℕ
  entireSystemColl : ℕ

/-- one trove while the sequence is in recovery mode -/
def recoveryStep (c : Config) (price : ℕ) (user : Address) (ICR : ℕ) (v : LiquidationSequence) :
    Res LiquidationSequence := do
  let TCR ← computeCR v.entireSystemColl v.entireSystemDebt price
  let (s, single) ← liquidateRecoveryMode c v.s user ICR v.remainingSIMInStabPool TCR price
  let remainingSIMInStabPool ← usub v.remainingSIMInStabPool single.debtToOffset
  let entireSystemDebt ← usub v.entireSystemDebt single.debtToOffset
  let collLeft ← usub v.entireSystemColl single.collToSendToSP
  let collLeft ← usub collLeft single.collGasCompensation
  let entireSystemColl ← usub collLeft single.collSurplus
  let totals ← addLiquidationValuesToTotals v.totals single
  let inRecovery ← checkPotentialRecoveryMode entireSystemColl entireSystemDebt price
  pure { s, totals, remainingSIMInStabPool, backToNormalMode := !inRecovery, entireSystemDebt, entireSystemColl }

/-- one trove in normal mode -/
def normalStep (c : Config) (user : Address) (v : LiquidationSequence) : Res LiquidationSequence := do
  let (s, single) ← liquidateNormalMode c v.s user v.remainingSIMInStabPool
  let remainingSIMInStabPool ← usub v.remainingSIMInStabPool single.debtToOffset
  let totals ← addLiquidationValuesToTotals v.totals single
  pure { v with s, totals, remainingSIMInStabPool }

/-- the loop of `_getTotalsFromLiquidateTrovesSequence_RecoveryMode` -/
def liquidateTrovesRecoveryLoop (c : Config) (price : ℕ) (firstUser : Address) :
    ℕ → Address → LiquidationSequence → Res LiquidationSequence
  | 0, _, v => .ok v
  | n + 1, user, v =>
    if user = firstUser then .ok v
    else do
      let nextUser := SortedTroves.getPrev v.s.sortedTroves user
      let ICR ← getCurrentICR v.s user price
      if v.backToNormalMode = false then
        if MCR ≤ ICR ∧ v.remainingSIMInStabPool = 0 then pure v
        else
          let v ← recoveryStep c price user ICR v
          liquidateTrovesRecoveryLoop c price firstUser n nextUser v
      else if ICR < MCR then
        let v ← normalStep c user v
        liquidateTrovesRecoveryLoop c price firstUser n nextUser v
      else pure v

/-- the loop of `_getTotalsFromLiquidateTrovesSequence_NormalMode` -/
def liquidateTrovesNormalLoop (c : Config) (price : ℕ) : ℕ → LiquidationSequence → Res LiquidationSequence
  | 0, v => .ok v
  | n + 1, v => do
    let user := SortedTroves.getLast v.s.sortedTroves
    let ICR ← getCurrentICR v.s user price
    if ICR < MCR then
      let v ← normalStep c user v
      liquidateTrovesNormalLoop c price n v
    else pure v

/-- the loop of `_getTotalFromBatchLiquidate_RecoveryMode` -/
def batchRecoveryLoop (c : Config) (price : ℕ) : List Address → LiquidationSequence → Res LiquidationSequence
  | [], v => .ok v
  | user :: users, v =>
    if (trove v.s user).status ≠ .active then batchRecoveryLoop c price users v
    else do
      let ICR ← getCurrentICR v.s user price
      if v.backToNormalMode = false then
        if MCR ≤ ICR ∧ v.remainingSIMInStabPool = 0 then batchRecoveryLoop c price users v
        else
          let v ← recoveryStep c price user ICR v
          batchRecoveryLoop c price users v
      else if ICR < MCR then
        let v ← normalStep c user v
        batchRecoveryLoop c price users v
      else batchRecoveryLoop c price users v

/-- the loop of `_getTotalsFromBatchLiquidate_NormalMode` -/
def batchNormalLoop (c : Config) (price : ℕ) : List Address → LiquidationSequence → Res LiquidationSequence
  | [], v => .ok v
  | user :: users, v => do
    let ICR ← getCurrentICR v.s user price
    if ICR < MCR then
      let v ← normalStep c user v
      batchNormalLoop c price users v
    else batchNormalLoop c price users v

/-- where a sequence starts; the system totals are only read in recovery mode -/
def startSequence (s : System) (entireSystemDebt entireSystemColl : ℕ) : LiquidationSequence :=
  { s, totals := .zero, remainingSIMInStabPool := s.stabilityPool.totalSIMDeposits, backToNormalMode := false,
    entireSystemDebt, entireSystemColl }

/-- the totals of `liquidateTroves`, with the state -/
def liquidateTrovesTotals (c : Config) (price : ℕ) (s : System) (recoveryModeAtStart : Bool) (n : ℕ) :
    Res LiquidationSequence :=
  if recoveryModeAtStart then do
    let v := startSequence s (← getEntireSystemDebt s) (← getEntireSystemColl s)
    liquidateTrovesRecoveryLoop c price (SortedTroves.getFirst s.sortedTroves) n (SortedTroves.getLast s.sortedTroves) v
  else liquidateTrovesNormalLoop c price n (startSequence s 0 0)

/-- the totals of `batchLiquidateTroves`, with the state -/
def batchTotals (c : Config) (price : ℕ) (s : System) (recoveryModeAtStart : Bool) (troveArray : List Address) :
    Res LiquidationSequence :=
  if recoveryModeAtStart then do
    batchRecoveryLoop c price troveArray (startSequence s (← getEntireSystemDebt s) (← getEntireSystemColl s))
  else batchNormalLoop c price troveArray (startSequence s 0 0)

def sendCollSurplus (c : Config) (s : System) (collSurplus : ℕ) : Res System :=
  if 0 < collSurplus then ActivePool.sendWSTETH c c.troveManager s c.collSurplusPool collSurplus else .ok s

def sendGasCompensation (c : Config) (s : System) (liquidator : Address) (WSTETH : ℕ) : Res System :=
  if 0 < WSTETH then ActivePool.sendWSTETH c c.troveManager s liquidator WSTETH else .ok s

/-- what both entry points do with the totals -/
def finishLiquidation (c : Config) (env : Env) (sender : Address) (s : System) (t : LiquidationTotals) : Res System := do
  require (0 < t.totalDebtInSequence) "TroveManager: nothing to liquidate"
  let s ← StabilityPool.offset c env c.troveManager s t.totalDebtToOffset t.totalCollToSendToSP
  let s ← redistributeDebtAndColl c s t.totalDebtToRedistribute t.totalCollToRedistribute
  let s ← sendCollSurplus c s t.totalCollSurplus
  let s ← updateSystemSnapshots_excludeCollRemainder s t.totalCollGasCompensation
  let _liquidatedColl ← usub (← usub t.totalCollInSequence t.totalCollGasCompensation) t.totalCollSurplus
  sendGasCompensation c s sender t.totalCollGasCompensation

def liquidateTroves (c : Config) (env : Env) (sender : Address) (s : System) (n : ℕ) : Res System := do
  let price ← env.fetchPrice
  let recoveryModeAtStart ← checkRecoveryMode s price
  let v ← liquidateTrovesTotals c price s recoveryModeAtStart n
  finishLiquidation c env sender v.s v.totals

def batchLiquidateTroves (c : Config) (env : Env) (sender : Address) (s : System) (troveArray : List Address) :
    Res System := do
  require (troveArray.length ≠ 0) "TroveManager: Calldata address array must not be empty"
  let price ← env.fetchPrice
  let recoveryModeAtStart ← checkRecoveryMode s price
  let v ← batchTotals c price s recoveryModeAtStart troveArray
  finishLiquidation c env sender v.s v.totals

def liquidate (c : Config) (env : Env) (sender : Address) (s : System) (borrower : Address) : Res System := do
  requireTroveIsActive s borrower
  batchLiquidateTroves c env sender s [borrower]

end TroveManager

end SimContracts.Protocol
