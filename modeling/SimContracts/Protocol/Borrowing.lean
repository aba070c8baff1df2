/-
The operations of borrowers (`contracts/BorrowerOperations.sol`) and of depositors (`contracts/StabilityPool.sol`), and
the protocol under any sequence of calls.

A borrower's collateral arrives at `BorrowerOperations` by a token transfer; `_adjustTrove` reads the contract's own
token balance to find out how much came. The checks of an operation are made on predicted values before the pools are
changed.

`exec` is one transaction of an account outside the protocol. Next to the entry points it has the calls accounts can
make on the two tokens; who can mint or burn wstETH is up to its own contract, so any account can.
-/
import SimContracts.Protocol.Redemption

namespace SimContracts.Protocol

open Solidity

namespace BorrowerOperations

open TroveManager

/-! ## Requirements -/

def requireValidMaxFeePercentage (maxFeePercentage : ℕ) (isRecoveryMode : Bool) : Res Unit :=
  if isRecoveryMode then
    require (maxFeePercentage ≤ DECIMAL_PRECISION) "Max fee percentage must less than or equal to 100%"
  else
    require (BORROWING_FEE_FLOOR ≤ maxFeePercentage ∧ maxFeePercentage ≤ DECIMAL_PRECISION)
      "Max fee percentage must be between 0.5% and 100%"

/-- collateral that came and a withdrawal exclude each other -/
def requireSingularCollChange (c : Config) (s : System) (collWithdrawal : ℕ) : Res Unit :=
  require (s.wsteth.balanceOf c.borrowerOperations = 0 ∨ collWithdrawal = 0)
    "BorrowerOperations: Cannot withdraw and add coll"

def requireNonZeroAdjustment (c : Config) (s : System) (collWithdrawal SIMChange : ℕ) : Res Unit :=
  require (s.wsteth.balanceOf c.borrowerOperations ≠ 0 ∨ collWithdrawal ≠ 0 ∨ SIMChange ≠ 0)
    "BorrowerOps: There must be either a collateral change or a debt change"

def requireTroveisActive (s : System) (borrower : Address) : Res Unit :=
  require ((trove s borrower).status = .active) "BorrowerOps: Trove does not exist or is closed"

def requireTroveisNotActive (s : System) (borrower : Address) : Res Unit :=
  require ((trove s borrower).status ≠ .active) "BorrowerOps: Trove is active"

def requireNonZeroDebtChange (SIMChange : ℕ) : Res Unit :=
  require (0 < SIMChange) "BorrowerOps: Debt increase requires non-zero debtChange"

def requireNotInRecoveryMode (s : System) (price : ℕ) : Res Unit := do
  require ((← checkRecoveryMode s price) = false) "BorrowerOps: Operation not permitted during Recovery Mode"

def requireNoCollWithdrawal (collWithdrawal : ℕ) : Res Unit :=
  require (collWithdrawal = 0) "BorrowerOps: Collateral withdrawal not permitted Recovery Mode"

def requireICRisAboveMCR (newICR : ℕ) : Res Unit :=
  require (MCR ≤ newICR) "BorrowerOps: An operation that would result in ICR < MCR is not permitted"

def requireICRisAboveCCR (newICR : ℕ) : Res Unit :=
  require (CCR ≤ newICR) "BorrowerOps: Operation must leave trove with ICR >= CCR"

def requireNewICRisAboveOldICR (newICR oldICR : ℕ) : Res Unit :=
  require (oldICR ≤ newICR) "BorrowerOps: Cannot decrease your Trove's ICR in Recovery Mode"

def requireNewTCRisAboveCCR (newTCR : ℕ) : Res Unit :=
  require (CCR ≤ newTCR) "BorrowerOps: An operation that would result in TCR < CCR is not permitted"

def requireAtLeastMinNetDebt (netDebt : ℕ) : Res Unit :=
  require (MIN_NET_DEBT ≤ netDebt) "BorrowerOps: Trove's net debt must be greater than minimum"

def requireValidSIMRepayment (currentDebt debtRepayment : ℕ) : Res Unit :=
  require (debtRepayment ≤ currentDebt) "BorrowerOps: Amount repaid must not be larger than the Trove's debt"

def requireSufficientSIMBalance (s : System) (borrower : Address) (debtRepayment : ℕ) : Res Unit :=
  require (debtRepayment ≤ s.sim.balanceOf borrower) "BorrowerOps: Caller doesnt have enough SIM to make repayment"

/-! ## Ratios after a change -/

/-- an amount after an increase or a decrease -/
def changed (amount change : ℕ) (isIncrease : Bool) : Res ℕ := if isIncrease then uadd amount change else usub amount change

/-- a change of a trove's collateral and debt -/
structure TroveChange where
  collChange : ℕ
  isCollIncrease : Bool
  debtChange : ℕ
  isDebtIncrease : Bool

def getNewTroveAmounts (coll debt : ℕ) (x : TroveChange) : Res (ℕ × ℕ) := do
  let newColl ← changed coll x.collChange x.isCollIncrease
  let newDebt ← changed debt x.debtChange x.isDebtIncrease
  pure (newColl, newDebt)

def getNewNominalICRFromTroveChange (coll debt : ℕ) (x : TroveChange) : Res ℕ := do
  let (newColl, newDebt) ← getNewTroveAmounts coll debt x
  computeNominalCR newColl newDebt

def getNewICRFromTroveChange (coll debt : ℕ) (x : TroveChange) (price : ℕ) : Res ℕ := do
  let (newColl, newDebt) ← getNewTroveAmounts coll debt x
  computeCR newColl newDebt price

def getNewTCRFromTroveChange (s : System) (x : TroveChange) (price : ℕ) : Res ℕ := do
  let totalColl ← getEntireSystemColl s
  let totalDebt ← getEntireSystemDebt s
  let totalColl ← changed totalColl x.collChange x.isCollIncrease
  let totalDebt ← changed totalDebt x.debtChange x.isDebtIncrease
  computeCR totalColl totalDebt price

/-! ## Helpers -/

/-- the fee, half of which goes to the distributor and the rest to the fee receiver -/
def triggerBorrowingFee (c : Config) (env : Env) (s : System) (SIMAmount maxFeePercentage : ℕ) : Res (System × ℕ) := do
  let s ← decayBaseRateFromBorrowing c c.borrowerOperations s env.timestamp
  let SIMFee ← getBorrowingFee s SIMAmount
  requireUserAcceptsFee SIMFee SIMAmount maxFeePercentage
  let half := SIMFee / 2
  let s ← SIMToken.mint c c.borrowerOperations s c.simVeDistributor half
  env.checkpoint
  let s ← SIMToken.mint c c.borrowerOperations s c.feeReceiver (SIMFee - half)
  pure (s, SIMFee)

/-- the fee is charged in normal mode only -/
def chargeFee (c : Config) (env : Env) (s : System) (charged : Bool) (SIMAmount maxFeePercentage : ℕ) :
    Res (System × ℕ) :=
  if charged then do
    let (s, SIMFee) ← triggerBorrowingFee c env s SIMAmount maxFeePercentage
    let netDebt ← uadd SIMAmount SIMFee
    pure (s, netDebt)
  else .ok (s, SIMAmount)

/-- the collateral that came, or the requested withdrawal -/
def getCollChange (collReceived requestedCollWithdrawal : ℕ) : ℕ × Bool :=
  if collReceived ≠ 0 then (collReceived, true) else (requestedCollWithdrawal, false)

def changeTroveColl (c : Config) (s : System) (borrower : Address) (x : TroveChange) : Res System :=
  if x.isCollIncrease then increaseTroveColl c c.borrowerOperations s borrower x.collChange
  else decreaseTroveColl c c.borrowerOperations s borrower x.collChange

def changeTroveDebt (c : Config) (s : System) (borrower : Address) (x : TroveChange) : Res System :=
  if x.isDebtIncrease then increaseTroveDebt c c.borrowerOperations s borrower x.debtChange
  else decreaseTroveDebt c c.borrowerOperations s borrower x.debtChange

def updateTroveFromAdjustment (c : Config) (s : System) (borrower : Address) (x : TroveChange) : Res System := do
  let s ← changeTroveColl c s borrower x
  changeTroveDebt c s borrower x

def activePoolAddColl (c : Config) (s : System) (amount : ℕ) : Res System := do
  let s ← transferWSTETH s c.borrowerOperations c.activePool amount
  ActivePool.receiveWSTETH c c.borrowerOperations s amount

/-- `_withdrawSIM` -/
def issueSIM (c : Config) (s : System) (account : Address) (SIMAmount netDebtIncrease : ℕ) : Res System := do
  let s ← ActivePool.increaseSIMDebt c c.borrowerOperations s netDebtIncrease
  SIMToken.mint c c.borrowerOperations s account SIMAmount

/-- `_repaySIM` -/
def burnSIM (c : Config) (s : System) (account : Address) (SIM : ℕ) : Res System := do
  let s ← ActivePool.decreaseSIMDebt c c.borrowerOperations s SIM
  SIMToken.burn c c.borrowerOperations s account SIM

def moveSIM (c : Config) (s : System) (borrower : Address) (x : TroveChange) (SIMChange : ℕ) : Res System :=
  if x.isDebtIncrease then issueSIM c s borrower SIMChange x.debtChange else burnSIM c s borrower SIMChange

def moveColl (c : Config) (s : System) (borrower : Address) (x : TroveChange) : Res System :=
  if x.isCollIncrease then activePoolAddColl c s x.collChange
  else ActivePool.sendWSTETH c c.borrowerOperations s borrower x.collChange

def moveTokensAndWSTETHfromAdjustment (c : Config) (s : System) (borrower : Address) (x : TroveChange) (SIMChange : ℕ) :
    Res System := do
  let s ← moveSIM c s borrower x SIMChange
  moveColl c s borrower x

def requireValidAdjustmentInCurrentMode (s : System) (isRecoveryMode : Bool) (collWithdrawal oldICR newICR price : ℕ)
    (x : TroveChange) : Res Unit :=
  if isRecoveryMode then do
    requireNoCollWithdrawal collWithdrawal
    if x.isDebtIncrease then
      requireICRisAboveCCR newICR
      requireNewICRisAboveOldICR newICR oldICR
    else pure ()
  else do
    requireICRisAboveMCR newICR
    let newTCR ← getNewTCRFromTroveChange s x price
    requireNewTCRisAboveCCR newTCR

/-! ## Opening, adjusting and closing a trove -/

/-- `sortedTroves.insert` -/
def insertInList (s : System) (id : Address) (NICR : ℕ) (prevId nextId : Address) : Res System := do
  let sortedTroves ← SortedTroves.insert s.sortedTroves (getNominalICR s) id NICR prevId nextId
  pure { s with sortedTroves }

/-- the ratio a new trove and the system must have -/
def requireValidOpening (s : System) (isRecoveryMode : Bool) (ICR price amount compositeDebt : ℕ) : Res Unit :=
  if isRecoveryMode then requireICRisAboveCCR ICR
  else do
    requireICRisAboveMCR ICR
    let newTCR ← getNewTCRFromTroveChange s ⟨amount, true, compositeDebt, true⟩ price
    requireNewTCRisAboveCCR newTCR

/-- the records of a new trove -/
def createTrove (c : Config) (s : System) (borrower : Address) (amount compositeDebt NICR : ℕ)
    (upperHint lowerHint : Address) : Res System := do
  let s ← setTroveStatus c c.borrowerOperations s borrower .active
  let s ← increaseTroveColl c c.borrowerOperations s borrower amount
  let s ← increaseTroveDebt c c.borrowerOperations s borrower compositeDebt
  let s ← updateTroveRewardSnapshots c c.borrowerOperations s borrower
  let s ← updateStakeAndTotalStakes c c.borrowerOperations s borrower
  let s ← insertInList s borrower NICR upperHint lowerHint
  addTroveOwnerToArray c c.borrowerOperations s borrower

def openTrove (c : Config) (env : Env) (sender : Address) (s : System) (amount maxFeePercentage SIMAmount : ℕ)
    (upperHint lowerHint : Address) : Res System := do
  let s ← transferFromWSTETH s c.borrowerOperations sender c.borrowerOperations amount
  let price ← env.fetchPrice
  let isRecoveryMode ← checkRecoveryMode s price
  requireValidMaxFeePercentage maxFeePercentage isRecoveryMode
  requireTroveisNotActive s sender
  let (s, netDebt) ← chargeFee c env s (!isRecoveryMode) SIMAmount maxFeePercentage
  requireAtLeastMinNetDebt netDebt
  let compositeDebt := getCompositeDebt netDebt
  assert (0 < compositeDebt)
  let ICR ← computeCR amount compositeDebt price
  let NICR ← computeNominalCR amount compositeDebt
  requireValidOpening s isRecoveryMode ICR price amount compositeDebt
  let s ← createTrove c s sender amount compositeDebt NICR upperHint lowerHint
  let s ← activePoolAddColl c s amount
  issueSIM c s sender SIMAmount netDebt

structure AdjustArgs where
  collWithdrawal : ℕ
  SIMChange : ℕ
  isDebtIncrease : Bool
  upperHint : Address
  lowerHint : Address
  maxFeePercentage : ℕ

/-- the checks of a debt increase -/
def requireValidDebtIncrease (isRecoveryMode : Bool) (a : AdjustArgs) : Res Unit :=
  if a.isDebtIncrease then do
    requireValidMaxFeePercentage a.maxFeePercentage isRecoveryMode
    requireNonZeroDebtChange a.SIMChange
  else .ok ()

/-- the checks of a repayment -/
def requireValidRepayment (s : System) (borrower : Address) (debt netDebtChange : ℕ) (a : AdjustArgs) : Res Unit :=
  if a.isDebtIncrease = false ∧ 0 < a.SIMChange then do
    requireAtLeastMinNetDebt (← usub (getNetDebt debt) netDebtChange)
    requireValidSIMRepayment debt netDebtChange
    requireSufficientSIMBalance s borrower netDebtChange
  else .ok ()

/-- `_adjustTrove` called by `sender` -/
def adjust (c : Config) (env : Env) (sender : Address) (s : System) (borrower : Address) (a : AdjustArgs) :
    Res System := do
  let price ← env.fetchPrice
  let isRecoveryMode ← checkRecoveryMode s price
  requireValidDebtIncrease isRecoveryMode a
  requireSingularCollChange c s a.collWithdrawal
  requireNonZeroAdjustment c s a.collWithdrawal a.SIMChange
  requireTroveisActive s borrower
  let b := s.wsteth.balanceOf c.borrowerOperations
  -- a borrower on their own trove, or a collateral gain from the Stability Pool
  assert (sender = borrower ∨ (sender = c.stabilityPool ∧ 0 < b ∧ a.SIMChange = 0))
  let s ← applyPendingRewards c c.borrowerOperations s borrower
  let collChange := getCollChange b a.collWithdrawal
  let (s, netDebtChange) ←
    chargeFee c env s (a.isDebtIncrease && !isRecoveryMode) a.SIMChange a.maxFeePercentage
  let x : TroveChange := ⟨collChange.1, collChange.2, netDebtChange, a.isDebtIncrease⟩
  let debt := (trove s borrower).debt
  let coll := (trove s borrower).coll
  let oldICR ← computeCR coll debt price
  let newICR ← getNewICRFromTroveChange coll debt x price
  assert (a.collWithdrawal ≤ coll)
  requireValidAdjustmentInCurrentMode s isRecoveryMode a.collWithdrawal oldICR newICR price x
  requireValidRepayment s borrower debt netDebtChange a
  let s ← updateTroveFromAdjustment c s borrower x
  let s ← updateStakeAndTotalStakes c c.borrowerOperations s borrower
  let newNICR ← getNewNominalICRFromTroveChange coll debt x
  let s ← reInsertInList s borrower newNICR a.upperHint a.lowerHint
  moveTokensAndWSTETHfromAdjustment c s sender x a.SIMChange

def addColl (c : Config) (env : Env) (sender : Address) (s : System) (amount : ℕ) (upperHint lowerHint : Address) :
    Res System := do
  let s ← transferFromWSTETH s c.borrowerOperations sender c.borrowerOperations amount
  adjust c env sender s sender ⟨0, 0, false, upperHint, lowerHint, 0⟩

def moveWSTETHGainToTrove (c : Config) (env : Env) (sender : Address) (s : System) (borrower : Address)
    (upperHint lowerHint : Address) : Res System := do
  require (sender = c.stabilityPool) "BorrowerOps: Caller is not Stability Pool"
  adjust c env sender s borrower ⟨0, 0, false, upperHint, lowerHint, 0⟩

def withdrawColl (c : Config) (env : Env) (sender : Address) (s : System) (collWithdrawal : ℕ)
    (upperHint lowerHint : Address) : Res System :=
  adjust c env sender s sender ⟨collWithdrawal, 0, false, upperHint, lowerHint, 0⟩

def withdrawSIM (c : Config) (env : Env) (sender : Address) (s : System) (maxFeePercentage SIMAmount : ℕ)
    (upperHint lowerHint : Address) : Res System :=
  adjust c env sender s sender ⟨0, SIMAmount, true, upperHint, lowerHint, maxFeePercentage⟩

def repaySIM (c : Config) (env : Env) (sender : Address) (s : System) (SIMAmount : ℕ) (upperHint lowerHint : Address) :
    Res System :=
  adjust c env sender s sender ⟨0, SIMAmount, false, upperHint, lowerHint, 0⟩

/-- collateral is only transferred if there is any -/
def receiveColl (c : Config) (s : System) (sender : Address) (addColAmount : ℕ) : Res System :=
  if 0 < addColAmount then transferFromWSTETH s c.borrowerOperations sender c.borrowerOperations addColAmount
  else .ok s

def adjustTrove (c : Config) (env : Env) (sender : Address) (s : System) (addColAmount : ℕ) (a : AdjustArgs) :
    Res System := do
  let s ← receiveColl c s sender addColAmount
  adjust c env sender s sender a

def closeTrove (c : Config) (env : Env) (sender : Address) (s : System) : Res System := do
  requireTroveisActive s sender
  let price ← env.fetchPrice
  requireNotInRecoveryMode s price
  let s ← applyPendingRewards c c.borrowerOperations s sender
  let coll := (trove s sender).coll
  let debt := (trove s sender).debt
  requireSufficientSIMBalance s sender debt
  let newTCR ← getNewTCRFromTroveChange s ⟨coll, false, debt, false⟩ price
  requireNewTCRisAboveCCR newTCR
  let s ← removeStake c c.borrowerOperations s sender
  let s ← TroveManager.closeTrove c c.borrowerOperations s sender
  let s ← burnSIM c s sender debt
  ActivePool.sendWSTETH c c.borrowerOperations s sender coll

def claimCollateral (c : Config) (sender : Address) (s : System) : Res System :=
  CollSurplusPool.claimColl c c.borrowerOperations s sender

end BorrowerOperations

/-! ## Depositors -/

namespace StabilityPool

/-- `_sendWSTETHGainToDepositor`, the token transfer -/
def sendGain (c : Config) (s : System) (depositor : Address) (amount : ℕ) : Res System :=
  if amount = 0 then .ok s else transferWSTETH s c.stabilityPool depositor amount

def provideToSP (c : Config) (env : Env) (sender : Address) (s : System) (amount : ℕ) : Res System := do
  let issued ← env.issueSHADY
  let (stabilityPool, payout) ← SimContracts.StabilityPool.provideToSP s.stabilityPool sender amount issued
  env.sendSHADY
  let s ← SIMToken.sendToPool c c.stabilityPool s sender c.stabilityPool amount
  sendGain c { s with stabilityPool } sender payout.wsteth

/-- the ICR of the trove at the tail; it is not asked for when nothing is withdrawn -/
def lowestICR (env : Env) (s : System) (amount : ℕ) : Res ℕ :=
  if amount = 0 then .ok 0
  else do
    let price ← env.fetchPrice
    TroveManager.getCurrentICR s (SortedTroves.getLast s.sortedTroves) price

/-- `_sendSIMToDepositor`, the token transfer -/
def sendSIM (c : Config) (s : System) (depositor : Address) (amount : ℕ) : Res System :=
  if amount = 0 then .ok s else SIMToken.returnFromPool c c.stabilityPool s c.stabilityPool depositor amount

def withdrawFromSP (c : Config) (env : Env) (sender : Address) (s : System) (amount : ℕ) : Res System := do
  let ICR ← lowestICR env s amount
  let issued ← env.issueSHADY
  let (stabilityPool, payout) ← SimContracts.StabilityPool.withdrawFromSP s.stabilityPool sender amount issued ICR
  env.sendSHADY
  let s ← sendSIM c s sender payout.sim
  sendGain c { s with stabilityPool } sender payout.wsteth

/-- `uint(Troves[borrower].status)` -/
def statusCode : Status → ℕ
  | .nonExistent => 0
  | .active => 1
  | .closedByOwner => 2
  | .closedByLiquidation => 3
  | .closedByRedemption => 4

def withdrawWSTETHGainToTrove (c : Config) (env : Env) (sender : Address) (s : System) (upperHint lowerHint : Address) :
    Res System := do
  let issued ← env.issueSHADY
  let (stabilityPool, payout) ← SimContracts.StabilityPool.withdrawWSTETHGainToTrove s.stabilityPool sender issued
    (statusCode (TroveManager.trove s sender).status)
  env.sendSHADY
  let s ← transferWSTETH { s with stabilityPool } c.stabilityPool c.borrowerOperations payout.wsteth
  BorrowerOperations.moveWSTETHGainToTrove c env c.stabilityPool s sender upperHint lowerHint

end StabilityPool

/-! ## The protocol under any calls -/

inductive Call where
  | openTrove (amount maxFeePercentage SIMAmount : ℕ) (upperHint lowerHint : Address)
  | addColl (amount : ℕ) (upperHint lowerHint : Address)
  | withdrawColl (collWithdrawal : ℕ) (upperHint lowerHint : Address)
  | withdrawSIM (maxFeePercentage SIMAmount : ℕ) (upperHint lowerHint : Address)
  | repaySIM (SIMAmount : ℕ) (upperHint lowerHint : Address)
  | adjustTrove (addColAmount : ℕ) (args : BorrowerOperations.AdjustArgs)
  | closeTrove
  | claimCollateral
  | liquidate (borrower : Address)
  | liquidateTroves (n : ℕ)
  | batchLiquidateTroves (troveArray : List Address)
  | redeemCollateral (args : TroveManager.RedeemArgs)
  | provideToSP (amount : ℕ)
  | withdrawFromSP (amount : ℕ)
  | withdrawWSTETHGainToTrove (upperHint lowerHint : Address)
  | transferSIM (recipient : Address) (amount : ℕ)
  | transferFromSIM (src recipient : Address) (amount : ℕ)
  | approveSIM (spender : Address) (amount : ℕ)
  | transferWSTETH (recipient : Address) (amount : ℕ)
  | transferFromWSTETH (src recipient : Address) (amount : ℕ)
  | approveWSTETH (spender : Address) (amount : ℕ)
  /-- wrapping stETH -/
  | mintWSTETH (amount : ℕ)
  /-- unwrapping -/
  | burnWSTETH (amount : ℕ)

/-- a transaction: who sends it, what it calls, and what the contracts outside answer -/
structure Tx (c : Config) where
  env : Env
  sender : Account c
  call : Call

def exec (c : Config) (s : System) (tx : Tx c) : Res System :=
  let env := tx.env
  let sender := tx.sender.address
  match tx.call with
  | .openTrove amount maxFeePercentage SIMAmount upperHint lowerHint =>
    BorrowerOperations.openTrove c env sender s amount maxFeePercentage SIMAmount upperHint lowerHint
  | .addColl amount upperHint lowerHint => BorrowerOperations.addColl c env sender s amount upperHint lowerHint
  | .withdrawColl collWithdrawal upperHint lowerHint =>
    BorrowerOperations.withdrawColl c env sender s collWithdrawal upperHint lowerHint
  | .withdrawSIM maxFeePercentage SIMAmount upperHint lowerHint =>
    BorrowerOperations.withdrawSIM c env sender s maxFeePercentage SIMAmount upperHint lowerHint
  | .repaySIM SIMAmount upperHint lowerHint =>
    BorrowerOperations.repaySIM c env sender s SIMAmount upperHint lowerHint
  | .adjustTrove addColAmount args => BorrowerOperations.adjustTrove c env sender s addColAmount args
  | .closeTrove => BorrowerOperations.closeTrove c env sender s
  | .claimCollateral => BorrowerOperations.claimCollateral c sender s
  | .liquidate borrower => TroveManager.liquidate c env sender s borrower
  | .liquidateTroves n => TroveManager.liquidateTroves c env sender s n
  | .batchLiquidateTroves troveArray => TroveManager.batchLiquidateTroves c env sender s troveArray
  | .redeemCollateral args => TroveManager.redeemCollateral c env sender s args
  | .provideToSP amount => StabilityPool.provideToSP c env sender s amount
  | .withdrawFromSP amount => StabilityPool.withdrawFromSP c env sender s amount
  | .withdrawWSTETHGainToTrove upperHint lowerHint =>
    StabilityPool.withdrawWSTETHGainToTrove c env sender s upperHint lowerHint
  | .transferSIM recipient amount => SIMToken.transfer c sender s recipient amount
  | .transferFromSIM src recipient amount => SIMToken.transferFrom c sender s src recipient amount
  | .approveSIM spender amount => do
    let sim ← s.sim.approve sender spender amount
    pure { s with sim }
  | .transferWSTETH recipient amount => Protocol.transferWSTETH s sender recipient amount
  | .transferFromWSTETH src recipient amount => Protocol.transferFromWSTETH s sender src recipient amount
  | .approveWSTETH spender amount => do
    let wsteth ← s.wsteth.approve sender spender amount
    pure { s with wsteth }
  | .mintWSTETH amount => do
    let wsteth ← s.wsteth.mint sender amount
    pure { s with wsteth }
  | .burnWSTETH amount => do
    let wsteth ← s.wsteth.burn sender amount
    pure { s with wsteth }

end SimContracts.Protocol
