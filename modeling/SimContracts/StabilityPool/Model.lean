/-
The Stability Pool (`contracts/StabilityPool.sol`): deposits of SIM that absorb liquidated debt and earn the collateral.

The pool keeps a running product `P` (with a scale and an epoch) for the losses and running sums `S`, `G` per epoch and
scale for the collateral and SHADY gains; a depositor's balance is read from the product and the sums since its own
snapshot. The functions follow the source one by one. What comes from other contracts is an argument of the call: the
SHADY amount `issued` that `communityIssuance.issueSHADY()` returns, the `lowestICR` read by
`_requireNoUnderCollateralizedTroves`, the `troveStatus` of the depositor. What a call pays out to other contracts is
returned next to the new state (`Payout`); the token movements themselves are in the system model.

`Call`, `exec` and `run` are the pool under any sequence of its four entry points, with `offset` for any debt and any
collateral.
-/
import SimContracts.Base
import SimContracts.Core.Ledger

namespace SimContracts.StabilityPool

open Solidity

/-! ## State -/

def SCALE_FACTOR : ℕ := 10 ^ 9

structure Snapshots where
  S : ℕ
  P : ℕ
  G : ℕ
  scale : ℕ
  epoch : ℕ
deriving DecidableEq, Repr

structure Pool where
  /-- collateral tracker -/
  WSTETH : ℕ
  totalSIMDeposits : ℕ
  /-- `deposits[a].initialValue` -/
  deposits : Address → ℕ
  depositSnapshots : Address → Snapshots
  P : ℕ
  currentScale : ℕ
  currentEpoch : ℕ
  epochToScaleToSum : ℕ → ℕ → ℕ
  epochToScaleToG : ℕ → ℕ → ℕ
  lastSHADYError : ℕ
  lastWSTETHError_Offset : ℕ
  lastSIMLossError_Offset : ℕ

def init : Pool where
  WSTETH := 0
  totalSIMDeposits := 0
  deposits := fun _ => 0
  depositSnapshots := fun _ => ⟨0, 0, 0, 0, 0⟩
  P := DECIMAL_PRECISION
  currentScale := 0
  currentEpoch := 0
  epochToScaleToSum := fun _ _ => 0
  epochToScaleToG := fun _ _ => 0
  lastSHADYError := 0
  lastWSTETHError_Offset := 0
  lastSIMLossError_Offset := 0

/-- `m[epoch][scale] = v` -/
def write (m : ℕ → ℕ → ℕ) (epoch scale v : ℕ) : ℕ → ℕ → ℕ :=
  Function.update m epoch (Function.update (m epoch) scale v)

/-! ## Reading a deposit -/

/-- the deposit scaled by the product since its snapshot, for the number of scale changes in between -/
def compoundedByScale (s : Pool) (initialStake snapshot_P scaleDiff : ℕ) : Res ℕ :=
  if scaleDiff = 0 then do udiv (← umul initialStake s.P) snapshot_P
  else if scaleDiff = 1 then do udiv (← udiv (← umul initialStake s.P) snapshot_P) SCALE_FACTOR
  else .ok 0

def getCompoundedStakeFromSnapshots (s : Pool) (initialStake : ℕ) (snapshots : Snapshots) : Res ℕ :=
  if snapshots.epoch < s.currentEpoch then .ok 0
  else do
    let scaleDiff ← usub s.currentScale snapshots.scale
    let compoundedStake ← compoundedByScale s initialStake snapshots.P scaleDiff
    pure (if compoundedStake < initialStake / 10 ^ 9 then 0 else compoundedStake)

def getCompoundedSIMDeposit (s : Pool) (depositor : Address) : Res ℕ :=
  if s.deposits depositor = 0 then .ok 0
  else getCompoundedStakeFromSnapshots s (s.deposits depositor) (s.depositSnapshots depositor)

/-- the gain of a deposit from the sums at its own scale and at the next one -/
def gainFromSnapshots (sums : ℕ → ℕ → ℕ) (initialDeposit sumSnapshot : ℕ) (snapshots : Snapshots) : Res ℕ := do
  let firstPortion ← usub (sums snapshots.epoch snapshots.scale) sumSnapshot
  let nextScale ← uadd128 snapshots.scale 1
  let secondPortion ← udiv (sums snapshots.epoch nextScale) SCALE_FACTOR
  let perDeposit ← umul initialDeposit (← uadd firstPortion secondPortion)
  udiv (← udiv perDeposit snapshots.P) DECIMAL_PRECISION

def getWSTETHGainFromSnapshots (s : Pool) (initialDeposit : ℕ) (snapshots : Snapshots) : Res ℕ :=
  gainFromSnapshots s.epochToScaleToSum initialDeposit snapshots.S snapshots

def getSHADYGainFromSnapshots (s : Pool) (initialStake : ℕ) (snapshots : Snapshots) : Res ℕ :=
  gainFromSnapshots s.epochToScaleToG initialStake snapshots.G snapshots

def getDepositorWSTETHGain (s : Pool) (depositor : Address) : Res ℕ :=
  if s.deposits depositor = 0 then .ok 0
  else getWSTETHGainFromSnapshots s (s.deposits depositor) (s.depositSnapshots depositor)

def getDepositorSHADYGain (s : Pool) (depositor : Address) : Res ℕ :=
  if s.deposits depositor = 0 then .ok 0
  else do
    -- without a front end the kickback rate is 100%
    let kickbackRate := DECIMAL_PRECISION
    let gain ← getSHADYGainFromSnapshots s (s.deposits depositor) (s.depositSnapshots depositor)
    udiv (← umul kickbackRate gain) DECIMAL_PRECISION

/-! ## SHADY issuance -/

/-- SHADY per unit staked, with the floor error carried to the next issuance -/
def computeSHADYPerUnitStaked (s : Pool) (issued totalSIM : ℕ) : Res (ℕ × Pool) := do
  let SHADYNumerator ← uadd (← umul issued DECIMAL_PRECISION) s.lastSHADYError
  let SHADYPerUnitStaked ← udiv SHADYNumerator totalSIM
  let lastSHADYError ← usub SHADYNumerator (← umul SHADYPerUnitStaked totalSIM)
  pure (SHADYPerUnitStaked, { s with lastSHADYError })

def updateG (s : Pool) (issued : ℕ) : Res Pool :=
  if s.totalSIMDeposits = 0 ∨ issued = 0 then .ok s
  else do
    let (SHADYPerUnitStaked, s) ← computeSHADYPerUnitStaked s issued s.totalSIMDeposits
    let marginalSHADYGain ← umul SHADYPerUnitStaked s.P
    let G ← uadd (s.epochToScaleToG s.currentEpoch s.currentScale) marginalSHADYGain
    pure { s with epochToScaleToG := write s.epochToScaleToG s.currentEpoch s.currentScale G }

/-- `issued` is what `communityIssuance.issueSHADY()` returned -/
def triggerSHADYIssuance (s : Pool) (issued : ℕ) : Res Pool := updateG s issued

/-! ## Offset -/

/-- the loss per unit and the error carried to the next offset; one is added to make the error in the quotient
positive -/
def computeSIMLossPerUnitStaked (s : Pool) (debtToOffset totalSIM : ℕ) : Res (ℕ × ℕ) :=
  if debtToOffset = totalSIM then .ok (DECIMAL_PRECISION, 0)
  else do
    let SIMLossNumerator ← usub (← umul debtToOffset DECIMAL_PRECISION) s.lastSIMLossError_Offset
    let SIMLossPerUnitStaked ← uadd (← udiv SIMLossNumerator totalSIM) 1
    let lastSIMLossError_Offset ← usub (← umul SIMLossPerUnitStaked totalSIM) SIMLossNumerator
    pure (SIMLossPerUnitStaked, lastSIMLossError_Offset)

def computeRewardsPerUnitStaked (s : Pool) (collToAdd debtToOffset totalSIM : ℕ) : Res (ℕ × ℕ × Pool) := do
  let WSTETHNumerator ← uadd (← umul collToAdd DECIMAL_PRECISION) s.lastWSTETHError_Offset
  assert (debtToOffset ≤ totalSIM)
  let (SIMLossPerUnitStaked, lastSIMLossError_Offset) ← computeSIMLossPerUnitStaked s debtToOffset totalSIM
  let WSTETHGainPerUnitStaked ← udiv WSTETHNumerator totalSIM
  let lastWSTETHError_Offset ← usub WSTETHNumerator (← umul WSTETHGainPerUnitStaked totalSIM)
  pure (WSTETHGainPerUnitStaked, SIMLossPerUnitStaked, { s with lastSIMLossError_Offset, lastWSTETHError_Offset })

/-- the new product, scale and epoch for a product factor: 0 starts a new epoch, a product that would fall below the
scale boundary is multiplied by `SCALE_FACTOR` -/
def updateProduct (s : Pool) (newProductFactor : ℕ) : Res (ℕ × ℕ × ℕ) :=
  if newProductFactor = 0 then do
    let epoch ← uadd128 s.currentEpoch 1
    pure (DECIMAL_PRECISION, 0, epoch)
  else do
    let scaled ← udiv (← umul s.P newProductFactor) DECIMAL_PRECISION
    if scaled < SCALE_FACTOR then
      let newP ← udiv (← umul (← umul s.P newProductFactor) SCALE_FACTOR) DECIMAL_PRECISION
      let scale ← uadd128 s.currentScale 1
      pure (newP, scale, s.currentEpoch)
    else pure (scaled, s.currentScale, s.currentEpoch)

def updateRewardSumAndProduct (s : Pool) (WSTETHGainPerUnitStaked SIMLossPerUnitStaked : ℕ) : Res Pool := do
  assert (SIMLossPerUnitStaked ≤ DECIMAL_PRECISION)
  let newProductFactor ← usub DECIMAL_PRECISION SIMLossPerUnitStaked
  let marginalWSTETHGain ← umul WSTETHGainPerUnitStaked s.P
  let newS ← uadd (s.epochToScaleToSum s.currentEpoch s.currentScale) marginalWSTETHGain
  let (newP, scale, epoch) ← updateProduct s newProductFactor
  assert (0 < newP)
  pure { s with
    P := newP
    currentScale := scale
    currentEpoch := epoch
    epochToScaleToSum := write s.epochToScaleToSum s.currentEpoch s.currentScale newS }

def decreaseSIM (s : Pool) (amount : ℕ) : Res Pool := do
  let newTotalSIMDeposits ← usub s.totalSIMDeposits amount
  pure { s with totalSIMDeposits := newTotalSIMDeposits }

/-- called by the ActivePool when collateral arrives -/
def receiveWSTETH (s : Pool) (amount : ℕ) : Res Pool := do
  let WSTETH ← uadd s.WSTETH amount
  pure { s with WSTETH }

/-- `_moveOffsetCollAndDebt`, the part that touches the pool: the debt is burned, the collateral arrives -/
def moveOffsetCollAndDebt (s : Pool) (collToAdd debtToOffset : ℕ) : Res Pool := do
  let s ← decreaseSIM s debtToOffset
  receiveWSTETH s collToAdd

def offset (s : Pool) (debtToOffset collToAdd issued : ℕ) : Res Pool :=
  if s.totalSIMDeposits = 0 ∨ debtToOffset = 0 then .ok s
  else do
    let totalSIM := s.totalSIMDeposits
    let s ← triggerSHADYIssuance s issued
    let (WSTETHGainPerUnitStaked, SIMLossPerUnitStaked, s) ←
      computeRewardsPerUnitStaked s collToAdd debtToOffset totalSIM
    let s ← updateRewardSumAndProduct s WSTETHGainPerUnitStaked SIMLossPerUnitStaked
    moveOffsetCollAndDebt s collToAdd debtToOffset

/-! ## Depositor functions -/

/-- what a depositor call sends out: SHADY and collateral gains, and SIM -/
structure Payout where
  shady : ℕ
  wsteth : ℕ
  sim : ℕ
deriving DecidableEq, Repr

def updateDepositAndSnapshots (s : Pool) (depositor : Address) (newValue : ℕ) : Pool :=
  let snapshots : Snapshots :=
    if newValue = 0 then ⟨0, 0, 0, 0, 0⟩
    else
      { P := s.P
        S := s.epochToScaleToSum s.currentEpoch s.currentScale
        G := s.epochToScaleToG s.currentEpoch s.currentScale
        scale := s.currentScale
        epoch := s.currentEpoch }
  { s with
    deposits := Function.update s.deposits depositor newValue
    depositSnapshots := Function.update s.depositSnapshots depositor snapshots }

/-- `_sendSIMtoStabilityPool`, the pool's own counter -/
def receiveSIM (s : Pool) (amount : ℕ) : Res Pool := do
  let newTotalSIMDeposits ← uadd s.totalSIMDeposits amount
  pure { s with totalSIMDeposits := newTotalSIMDeposits }

def sendWSTETHGainToDepositor (s : Pool) (amount : ℕ) : Res Pool :=
  if amount = 0 then .ok s
  else do
    let newWSTETH ← usub s.WSTETH amount
    pure { s with WSTETH := newWSTETH }

def sendSIMToDepositor (s : Pool) (SIMWithdrawal : ℕ) : Res Pool :=
  if SIMWithdrawal = 0 then .ok s else decreaseSIM s SIMWithdrawal

def requireUserHasDeposit (initialDeposit : ℕ) : Res Unit :=
  require (0 < initialDeposit) "StabilityPool: User must have a non-zero deposit"

def provideToSP (s : Pool) (sender : Address) (amount issued : ℕ) : Res (Pool × Payout) := do
  require (0 < amount) "StabilityPool: Amount must be non-zero"
  let initialDeposit := s.deposits sender
  let s ← triggerSHADYIssuance s issued
  let depositorWSTETHGain ← getDepositorWSTETHGain s sender
  let compoundedSIMDeposit ← getCompoundedSIMDeposit s sender
  let _SIMLoss ← usub initialDeposit compoundedSIMDeposit
  let shady ← getDepositorSHADYGain s sender
  let s ← receiveSIM s amount
  let newDeposit ← uadd compoundedSIMDeposit amount
  let s := updateDepositAndSnapshots s sender newDeposit
  let s ← sendWSTETHGainToDepositor s depositorWSTETHGain
  pure (s, ⟨shady, depositorWSTETHGain, 0⟩)

def withdrawFromSP (s : Pool) (sender : Address) (amount issued lowestICR : ℕ) : Res (Pool × Payout) := do
  require (amount = 0 ∨ MCR ≤ lowestICR) "StabilityPool: Cannot withdraw while there are troves with ICR < MCR"
  let initialDeposit := s.deposits sender
  requireUserHasDeposit initialDeposit
  let s ← triggerSHADYIssuance s issued
  let depositorWSTETHGain ← getDepositorWSTETHGain s sender
  let compoundedSIMDeposit ← getCompoundedSIMDeposit s sender
  let SIMtoWithdraw := min amount compoundedSIMDeposit
  let _SIMLoss ← usub initialDeposit compoundedSIMDeposit
  let shady ← getDepositorSHADYGain s sender
  let s ← sendSIMToDepositor s SIMtoWithdraw
  let newDeposit ← usub compoundedSIMDeposit SIMtoWithdraw
  let s := updateDepositAndSnapshots s sender newDeposit
  let s ← sendWSTETHGainToDepositor s depositorWSTETHGain
  pure (s, ⟨shady, depositorWSTETHGain, SIMtoWithdraw⟩)

/-- the collateral goes to BorrowerOperations, which adds it to the depositor's trove -/
def withdrawWSTETHGainToTrove (s : Pool) (sender : Address) (issued troveStatus : ℕ) : Res (Pool × Payout) := do
  let initialDeposit := s.deposits sender
  requireUserHasDeposit initialDeposit
  require (troveStatus = 1) "StabilityPool: caller must have an active trove to withdraw WSTETHGain to"
  let WSTETHGain ← getDepositorWSTETHGain s sender
  require (0 < WSTETHGain) "StabilityPool: caller must have non-zero WSTETH Gain"
  let s ← triggerSHADYIssuance s issued
  let depositorWSTETHGain ← getDepositorWSTETHGain s sender
  let compoundedSIMDeposit ← getCompoundedSIMDeposit s sender
  let _SIMLoss ← usub initialDeposit compoundedSIMDeposit
  let shady ← getDepositorSHADYGain s sender
  let s := updateDepositAndSnapshots s sender compoundedSIMDeposit
  let WSTETH ← usub s.WSTETH depositorWSTETHGain
  pure ({ s with WSTETH }, ⟨shady, depositorWSTETHGain, 0⟩)

/-! ## The pool under any calls -/

inductive Call where
  | provideToSP (sender : Address) (amount issued : ℕ)
  | withdrawFromSP (sender : Address) (amount issued lowestICR : ℕ)
  | withdrawWSTETHGainToTrove (sender : Address) (issued troveStatus : ℕ)
  | offset (debtToOffset collToAdd issued : ℕ)

def exec (s : Pool) : Call → Res Pool
  | .provideToSP sender amount issued => do
    let (s, _) ← provideToSP s sender amount issued
    pure s
  | .withdrawFromSP sender amount issued lowestICR => do
    let (s, _) ← withdrawFromSP s sender amount issued lowestICR
    pure s
  | .withdrawWSTETHGainToTrove sender issued troveStatus => do
    let (s, _) ← withdrawWSTETHGainToTrove s sender issued troveStatus
    pure s
  | .offset debtToOffset collToAdd issued => offset s debtToOffset collToAdd issued

end SimContracts.StabilityPool
