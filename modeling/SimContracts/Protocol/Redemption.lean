/-
Redemptions (`redeemCollateral` of `contracts/TroveManager.sol`) and the simulation that finds hints for them
(`getRedemptionHints` of `contracts/HintHelpers.sol`).

A redemption walks the list upwards from the first trove with an ICR of at least MCR. Every trove it can pay off is
closed; the last one may be left with less debt, if the caller's hint names the ratio it ends with. A walk that is
longer than the list (on a list that is not a chain) runs out of gas.
-/
import SimContracts.Protocol.Liquidation

namespace SimContracts.Protocol

open Solidity

namespace TroveManager

/-! ## One trove -/

structure SingleRedemptionValues where
  SIMLot : ℕ
  WSTETHLot : ℕ
  cancelledPartial : Bool
deriving DecidableEq, Repr

/-- the position the caller proposes for a trove that is redeemed in part, and the ratio it ends with -/
structure PartialRedemptionHint where
  upper : Address
  lower : Address
  NICR : ℕ

/-- `sortedTroves.reInsert`; the list asks for the ratios of its nodes in the state of the call -/
def reInsertInList (s : System) (id : Address) (newNICR : ℕ) (prevId nextId : Address) : Res System := do
  let sortedTroves ← SortedTroves.reInsert s.sortedTroves (getNominalICR s) id newNICR prevId nextId
  pure { s with sortedTroves }

def redeemCloseTrove (c : Config) (s : System) (borrower : Address) (WSTETH : ℕ) : Res System := do
  let s ← CollSurplusPool.accountSurplus c c.troveManager s borrower WSTETH
  ActivePool.sendWSTETH c c.troveManager s c.collSurplusPool WSTETH

def redeemCollateralFromTrove (c : Config) (s : System) (borrower : Address) (maxSIMamount price : ℕ)
    (hint : PartialRedemptionHint) : Res (System × SingleRedemptionValues) := do
  let SIMLot := min maxSIMamount (trove s borrower).debt
  let WSTETHLot ← udiv (← umul SIMLot DECIMAL_PRECISION) price
  let newDebt ← usub (trove s borrower).debt SIMLot
  let newColl ← usub (trove s borrower).coll WSTETHLot
  if newDebt = 0 then
    let s ← clearStake s borrower
    let s ← shutTrove s borrower .closedByRedemption
    let s ← redeemCloseTrove c s borrower newColl
    pure (s, ⟨SIMLot, WSTETHLot, false⟩)
  else
    let newNICR ← computeNominalCR newColl newDebt
    -- an outdated hint, or too little debt left
    if newNICR ≠ hint.NICR ∨ getNetDebt newDebt < MIN_NET_DEBT then pure (s, ⟨SIMLot, WSTETHLot, true⟩)
    else
      let s ← reInsertInList s borrower newNICR hint.upper hint.lower
      let s := writeTrove s borrower { trove s borrower with debt := newDebt, coll := newColl }
      let s ← recomputeStake s borrower
      pure (s, ⟨SIMLot, WSTETHLot, false⟩)

/-! ## The walk -/

/-- first trove upwards from `user` with an ICR of at least MCR -/
def findRedeemable (s : System) (price : ℕ) : ℕ → Address → Res Address
  | 0, _ => .error .outOfGas
  | rounds + 1, user =>
    if user = 0 then .ok 0
    else do
      if (← getCurrentICR s user price) < MCR then
        findRedeemable s price rounds (SortedTroves.getPrev s.sortedTroves user)
      else pure user

/-- the first trove with an ICR of at least MCR, from the tail -/
def firstRedeemable (s : System) (price : ℕ) : Res Address :=
  findRedeemable s price (SortedTroves.getSize s.sortedTroves + 1) (SortedTroves.getLast s.sortedTroves)

def isValidFirstRedemptionHint (s : System) (firstRedemptionHint : Address) (price : ℕ) : Res Bool :=
  if firstRedemptionHint = 0 ∨ SortedTroves.contains s.sortedTroves firstRedemptionHint = false then .ok false
  else do
    if (← getCurrentICR s firstRedemptionHint price) < MCR then pure false
    else
      let nextTrove := SortedTroves.getNext s.sortedTroves firstRedemptionHint
      if nextTrove = 0 then pure true else pure (decide ((← getCurrentICR s nextTrove price) < MCR))

/-- the running values of a redemption, with the state -/
structure RedemptionTotals where
  s : System
  remainingSIM : ℕ
  totalSIMToRedeem : ℕ
  totalWSTETHDrawn : ℕ

/-- the loop of `redeemCollateral` -/
def redeemLoop (c : Config) (price : ℕ) (hint : PartialRedemptionHint) :
    ℕ → Address → RedemptionTotals → Res RedemptionTotals
  | 0, _, t => .ok t
  | maxIterations + 1, currentBorrower, t =>
    if currentBorrower = 0 ∨ t.remainingSIM = 0 then .ok t
    else do
      -- saved before the list changes
      let nextUserToCheck := SortedTroves.getPrev t.s.sortedTroves currentBorrower
      let s ← settlePendingRewards c t.s currentBorrower
      let (s, single) ← redeemCollateralFromTrove c s currentBorrower t.remainingSIM price hint
      if single.cancelledPartial then pure { t with s }
      else
        let totalSIMToRedeem ← uadd t.totalSIMToRedeem single.SIMLot
        let totalWSTETHDrawn ← uadd t.totalWSTETHDrawn single.WSTETHLot
        let remainingSIM ← usub t.remainingSIM single.SIMLot
        redeemLoop c price hint maxIterations nextUserToCheck { s, remainingSIM, totalSIMToRedeem, totalWSTETHDrawn }

/-- a cap of 0 is no cap -/
def iterationCap (maxIterations : ℕ) : ℕ := if maxIterations = 0 then uintMax else maxIterations

/-! ## Redemption -/

def requireValidMaxFeePercentage (maxFeePercentage : ℕ) : Res Unit :=
  require (REDEMPTION_FEE_FLOOR ≤ maxFeePercentage ∧ maxFeePercentage ≤ DECIMAL_PRECISION)
    "Max fee percentage must be between 0.5% and 100%"

def requireAfterBootstrapPeriod (env : Env) : Res Unit := do
  let bootstrapEnd ← uadd env.deploymentStartTime BOOTSTRAP_PERIOD
  require (bootstrapEnd ≤ env.timestamp) "TroveManager: Redemptions are not allowed during bootstrap phase"

def requireTCRoverMCR (s : System) (price : ℕ) : Res Unit := do
  require (MCR ≤ (← getTCR s price)) "TroveManager: Cannot redeem when TCR < MCR"

/-- what `redeemCollateral` does with the totals: the fee, the burn and the collateral -/
def finishRedemption (c : Config) (env : Env) (sender : Address) (price maxFeePercentage totalSIMSupplyAtStart : ℕ)
    (t : RedemptionTotals) : Res System := do
  require (0 < t.totalWSTETHDrawn) "TroveManager: Unable to redeem any amount"
  let s ← updateBaseRateFromRedemption t.s t.totalWSTETHDrawn price totalSIMSupplyAtStart env.timestamp
  let WSTETHFee ← getRedemptionFee s t.totalWSTETHDrawn
  requireUserAcceptsFee WSTETHFee t.totalWSTETHDrawn maxFeePercentage
  let s ← ActivePool.sendWSTETH c c.troveManager s c.wstETHVeDistributor WSTETHFee
  env.checkpoint
  let WSTETHToSendToRedeemer ← usub t.totalWSTETHDrawn WSTETHFee
  let s ← SIMToken.burn c c.troveManager s sender t.totalSIMToRedeem
  let s ← ActivePool.decreaseSIMDebt c c.troveManager s t.totalSIMToRedeem
  ActivePool.sendWSTETH c c.troveManager s sender WSTETHToSendToRedeemer

structure RedeemArgs where
  SIMamount : ℕ
  firstRedemptionHint : Address
  hint : PartialRedemptionHint
  maxIterations : ℕ
  maxFeePercentage : ℕ

/-- the trove a redemption starts at -/
def firstBorrower (s : System) (price : ℕ) (firstRedemptionHint : Address) : Res Address := do
  if ← isValidFirstRedemptionHint s firstRedemptionHint price then pure firstRedemptionHint
  else firstRedeemable s price

def redeemCollateral (c : Config) (env : Env) (sender : Address) (s : System) (a : RedeemArgs) : Res System := do
  requireValidMaxFeePercentage a.maxFeePercentage
  requireAfterBootstrapPeriod env
  let price ← env.fetchPrice
  requireTCRoverMCR s price
  require (0 < a.SIMamount) "TroveManager: Amount must be greater than zero"
  require (a.SIMamount ≤ s.sim.balanceOf sender)
    "TroveManager: Requested redemption amount must be <= user's SIM token balance"
  let totalSIMSupplyAtStart ← getEntireSystemDebt s
  assert (s.sim.balanceOf sender ≤ totalSIMSupplyAtStart)
  let currentBorrower ← firstBorrower s price a.firstRedemptionHint
  let t ← redeemLoop c price a.hint (iterationCap a.maxIterations) currentBorrower
    { s, remainingSIM := a.SIMamount, totalSIMToRedeem := 0, totalWSTETHDrawn := 0 }
  finishRedemption c env sender price a.maxFeePercentage totalSIMSupplyAtStart t

end TroveManager

/-! ## HintHelpers -/

namespace HintHelpers

open TroveManager

/-- the simulation: the NICR hint, 0 without a partial redemption, and what remains of the amount -/
def hintsLoop (s : System) (price : ℕ) : ℕ → Address → ℕ → Res (ℕ × ℕ)
  | 0, _, remainingSIM => .ok (0, remainingSIM)
  | maxIterations + 1, user, remainingSIM =>
    -- `--_maxIterations > 0` is checked last, so a cap of 1 considers no trove
    if user = 0 ∨ remainingSIM = 0 ∨ maxIterations = 0 then .ok (0, remainingSIM)
    else do
      let netSIMDebt ← uadd (getNetDebt (trove s user).debt) (← getPendingSIMDebtReward s user)
      if remainingSIM < netSIMDebt then
        if MIN_NET_DEBT < netSIMDebt then
          let maxRedeemableSIM := min remainingSIM (netSIMDebt - MIN_NET_DEBT)
          let WSTETH ← uadd (trove s user).coll (← getPendingWSTETHReward s user)
          let newColl ← usub WSTETH (← udiv (← umul maxRedeemableSIM DECIMAL_PRECISION) price)
          let newDebt ← usub netSIMDebt maxRedeemableSIM
          let partialRedemptionHintNICR ← computeNominalCR newColl (getCompositeDebt newDebt)
          pure (partialRedemptionHintNICR, remainingSIM - maxRedeemableSIM)
        else pure (0, remainingSIM)
      else hintsLoop s price maxIterations (SortedTroves.getPrev s.sortedTroves user) (remainingSIM - netSIMDebt)

structure RedemptionHints where
  firstRedemptionHint : Address
  partialRedemptionHintNICR : ℕ
  truncatedSIMamount : ℕ
deriving DecidableEq

def getRedemptionHints (s : System) (SIMamount price maxIterations : ℕ) : Res RedemptionHints := do
  let firstRedemptionHint ← firstRedeemable s price
  let (partialRedemptionHintNICR, remainingSIM) ←
    hintsLoop s price (iterationCap maxIterations) firstRedemptionHint SIMamount
  let truncatedSIMamount ← usub SIMamount remainingSIM
  pure { firstRedemptionHint, partialRedemptionHintNICR, truncatedSIMamount }

end HintHelpers

end SimContracts.Protocol
