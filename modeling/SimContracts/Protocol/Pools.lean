/-
The state of the borrowing protocol and the contracts that hold its collateral and debt: the two tokens, `ActivePool`,
`DefaultPool` and `CollSurplusPool` (`contracts/SIMToken.sol`, `ActivePool.sol`, `DefaultPool.sol`,
`CollSurplusPool.sol`).

A pool keeps a tracker `WSTETH` next to the token balance: collateral moves by a token transfer and a separate
`receiveWSTETH` call on the contract that got it. Every function that only other contracts may call checks its caller,
which is an argument. The wstETH token is OpenZeppelin's ERC20.

What the protocol asks of contracts outside it is the outcome `Env` of one transaction: the price, the SHADY issuance,
the distributors' checkpoints.
-/
import SimContracts.ERC20
import SimContracts.SortedTroves
import SimContracts.StabilityPool.Model

namespace SimContracts.Protocol

open Solidity

/-! ## Addresses -/

/-- the addresses that `setAddresses` wires together. The six contracts are different and none is the zero address;
`feeReceiver` and the two distributors are none of them. -/
structure Config where
  simToken : Address
  activePool : Address
  defaultPool : Address
  stabilityPool : Address
  collSurplusPool : Address
  troveManager : Address
  borrowerOperations : Address
  simVeDistributor : Address
  wstETHVeDistributor : Address
  feeReceiver : Address
  /-- `data.maxSize` of the sorted list -/
  maxSize : ℕ
  distinct : [0, activePool, defaultPool, stabilityPool, collSurplusPool, troveManager, borrowerOperations].Nodup
  simVeDistributor_outside : simVeDistributor ∉ [activePool, defaultPool, stabilityPool, collSurplusPool]
  wstETHVeDistributor_outside : wstETHVeDistributor ∉ [activePool, defaultPool, stabilityPool, collSurplusPool]
  feeReceiver_outside : feeReceiver ∉ [activePool, defaultPool, stabilityPool, collSurplusPool]

/-- the contracts of the protocol -/
def Config.contracts (c : Config) : List Address :=
  [c.activePool, c.defaultPool, c.stabilityPool, c.collSurplusPool, c.troveManager, c.borrowerOperations]

/-- the contracts that keep a collateral tracker -/
def Config.pools (c : Config) : List Address := [c.activePool, c.defaultPool, c.stabilityPool, c.collSurplusPool]

/-- an account that is none of the protocol's contracts: it can send a transaction -/
structure Account (c : Config) where
  address : Address
  outside : address ∉ c.contracts

/-! ## State -/

/-- `ActivePool` and `DefaultPool` -/
structure DebtPool where
  WSTETH : ℕ
  SIMDebt : ℕ
deriving DecidableEq, Repr

structure CollSurplusPool where
  WSTETH : ℕ
  balances : Address → ℕ

inductive Status where
  | nonExistent
  | active
  | closedByOwner
  | closedByLiquidation
  | closedByRedemption
deriving DecidableEq, Repr

structure Trove where
  debt : ℕ
  coll : ℕ
  stake : ℕ
  status : Status
  arrayIndex : ℕ
deriving DecidableEq, Repr

structure RewardSnapshot where
  WSTETH : ℕ
  SIMDebt : ℕ
deriving DecidableEq, Repr

/-- the storage of `TroveManager` -/
structure TroveManager where
  baseRate : ℕ
  lastFeeOperationTime : ℕ
  Troves : Address → Trove
  totalStakes : ℕ
  totalStakesSnapshot : ℕ
  totalCollateralSnapshot : ℕ
  /-- collateral per unit staked of all redistributions -/
  L_WSTETH : ℕ
  /-- debt per unit staked of all redistributions -/
  L_SIMDebt : ℕ
  rewardSnapshots : Address → RewardSnapshot
  TroveOwners : List Address
  lastWSTETHError_Redistribution : ℕ
  lastSIMDebtError_Redistribution : ℕ

structure System where
  wsteth : ERC20
  sim : ERC20
  activePool : DebtPool
  defaultPool : DebtPool
  collSurplusPool : CollSurplusPool
  stabilityPool : StabilityPool.Pool
  troveManager : TroveManager
  sortedTroves : SortedTroves.Data

/-- the protocol after deployment, before anybody holds a token -/
def init (c : Config) : System where
  wsteth := .empty
  sim := .empty
  activePool := ⟨0, 0⟩
  defaultPool := ⟨0, 0⟩
  collSurplusPool := ⟨0, fun _ => 0⟩
  stabilityPool := StabilityPool.init
  troveManager :=
    { baseRate := 0, lastFeeOperationTime := 0, Troves := fun _ => ⟨0, 0, 0, .nonExistent, 0⟩, totalStakes := 0,
      totalStakesSnapshot := 0, totalCollateralSnapshot := 0, L_WSTETH := 0, L_SIMDebt := 0,
      rewardSnapshots := fun _ => ⟨0, 0⟩, TroveOwners := [], lastWSTETHError_Redistribution := 0,
      lastSIMDebtError_Redistribution := 0 }
  sortedTroves := SortedTroves.init c.maxSize

/-- what a transaction gets from the contracts outside the protocol; each call can revert -/
structure Env where
  timestamp : ℕ
  /-- `priceFeed.fetchPrice()` -/
  fetchPrice : Res ℕ
  /-- `communityIssuance.issueSHADY()` -/
  issueSHADY : Res ℕ
  /-- `communityIssuance.sendSHADY(...)` -/
  sendSHADY : Res Unit
  /-- `checkpoint()` of the distributor that got a fee -/
  checkpoint : Res Unit
  /-- `shadyToken.getDeploymentStartTime()` -/
  deploymentStartTime : ℕ

variable (c : Config) (caller : Address) (s : System)

/-! ## wstETH -/

/-- `IERC20(WSTETHAddress).transfer` by `src` -/
def transferWSTETH (s : System) (src dst : Address) (amount : ℕ) : Res System := do
  let wsteth ← s.wsteth.transfer src dst amount
  pure { s with wsteth }

/-- `IERC20(WSTETHAddress).transferFrom` by `spender` -/
def transferFromWSTETH (s : System) (spender src dst : Address) (amount : ℕ) : Res System := do
  let wsteth ← s.wsteth.transferFrom spender src dst amount
  pure { s with wsteth }

/-! ## SIMToken -/

namespace SIMToken

def requireValidRecipient (recipient : Address) : Res Unit := do
  require (recipient ≠ c.simToken) "SIM: Cannot transfer tokens directly to the SIM token contract"
  require (recipient ≠ c.stabilityPool ∧ recipient ≠ c.troveManager ∧ recipient ≠ c.borrowerOperations)
    "SIM: Cannot transfer tokens directly to the StabilityPool, TroveManager or BorrowerOps"

def mint (account : Address) (amount : ℕ) : Res System := do
  require (caller = c.borrowerOperations) "SIMToken: Caller is not BorrowerOperations"
  let sim ← s.sim.mint account amount
  pure { s with sim }

def burn (account : Address) (amount : ℕ) : Res System := do
  require (caller = c.borrowerOperations ∨ caller = c.troveManager ∨ caller = c.stabilityPool)
    "SIM: Caller is neither BorrowerOperations nor TroveManager nor StabilityPool"
  let sim ← s.sim.burn account amount
  pure { s with sim }

def transfer (recipient : Address) (amount : ℕ) : Res System := do
  requireValidRecipient c recipient
  let sim ← s.sim.transfer caller recipient amount
  pure { s with sim }

def transferFrom (src recipient : Address) (amount : ℕ) : Res System := do
  requireValidRecipient c recipient
  let sim ← s.sim.transferFrom caller src recipient amount
  pure { s with sim }

def sendToPool (sender pool : Address) (amount : ℕ) : Res System := do
  require (caller = c.stabilityPool) "SIM: Caller is not the StabilityPool"
  let sim ← s.sim.transfer sender pool amount
  pure { s with sim }

def returnFromPool (pool receiver : Address) (amount : ℕ) : Res System := do
  require (caller = c.troveManager ∨ caller = c.stabilityPool)
    "SIM: Caller is neither TroveManager nor StabilityPool"
  let sim ← s.sim.transfer pool receiver amount
  pure { s with sim }

end SIMToken

/-! ## DefaultPool and CollSurplusPool, the receiving side -/

def DefaultPool.receiveWSTETH (amount : ℕ) : Res System := do
  require (caller = c.activePool) "DefaultPool: Caller is not the ActivePool"
  let WSTETH ← uadd s.defaultPool.WSTETH amount
  pure { s with defaultPool := { s.defaultPool with WSTETH } }

def CollSurplusPool.receiveWSTETH (amount : ℕ) : Res System := do
  require (caller = c.activePool) "CollSurplusPool: Caller is not Active Pool"
  let WSTETH ← uadd s.collSurplusPool.WSTETH amount
  pure { s with collSurplusPool := { s.collSurplusPool with WSTETH } }

/-- `StabilityPool.receiveWSTETH` -/
def stabilityPoolReceiveWSTETH (amount : ℕ) : Res System := do
  require (caller = c.activePool) "StabilityPool: Caller is not ActivePool"
  let stabilityPool ← StabilityPool.receiveWSTETH s.stabilityPool amount
  pure { s with stabilityPool }

/-! ## ActivePool -/

namespace ActivePool

def requireCallerIsBOorTroveMorSP : Res Unit :=
  require (caller = c.borrowerOperations ∨ caller = c.troveManager ∨ caller = c.stabilityPool)
    "ActivePool: Caller is neither BorrowerOperations nor TroveManager nor StabilityPool"

/-- the bookkeeping call on a pool that got collateral -/
def notify (account : Address) (amount : ℕ) : Res System :=
  if account = c.defaultPool then DefaultPool.receiveWSTETH c c.activePool s amount
  else if account = c.stabilityPool then stabilityPoolReceiveWSTETH c c.activePool s amount
  else if account = c.collSurplusPool then CollSurplusPool.receiveWSTETH c c.activePool s amount
  else .ok s

def sendWSTETH (account : Address) (amount : ℕ) : Res System := do
  requireCallerIsBOorTroveMorSP c caller
  let WSTETH ← usub s.activePool.WSTETH amount
  let s := { s with activePool := { s.activePool with WSTETH } }
  let s ← transferWSTETH s c.activePool account amount
  notify c s account amount

def receiveWSTETH (amount : ℕ) : Res System := do
  require (caller = c.borrowerOperations ∨ caller = c.defaultPool) "ActivePool: Caller is neither BO nor Default Pool"
  let WSTETH ← uadd s.activePool.WSTETH amount
  pure { s with activePool := { s.activePool with WSTETH } }

def increaseSIMDebt (amount : ℕ) : Res System := do
  require (caller = c.borrowerOperations ∨ caller = c.troveManager)
    "ActivePool: Caller is neither BorrowerOperations nor TroveManager"
  let SIMDebt ← uadd s.activePool.SIMDebt amount
  pure { s with activePool := { s.activePool with SIMDebt } }

def decreaseSIMDebt (amount : ℕ) : Res System := do
  requireCallerIsBOorTroveMorSP c caller
  let SIMDebt ← usub s.activePool.SIMDebt amount
  pure { s with activePool := { s.activePool with SIMDebt } }

end ActivePool

/-! ## DefaultPool -/

namespace DefaultPool

def requireCallerIsTroveManager : Res Unit :=
  require (caller = c.troveManager) "DefaultPool: Caller is not the TroveManager"

def sendWSTETHToActivePool (amount : ℕ) : Res System := do
  requireCallerIsTroveManager c caller
  let WSTETH ← usub s.defaultPool.WSTETH amount
  let s := { s with defaultPool := { s.defaultPool with WSTETH } }
  let s ← transferWSTETH s c.defaultPool c.activePool amount
  ActivePool.receiveWSTETH c c.defaultPool s amount

def increaseSIMDebt (amount : ℕ) : Res System := do
  requireCallerIsTroveManager c caller
  let SIMDebt ← uadd s.defaultPool.SIMDebt amount
  pure { s with defaultPool := { s.defaultPool with SIMDebt } }

def decreaseSIMDebt (amount : ℕ) : Res System := do
  requireCallerIsTroveManager c caller
  let SIMDebt ← usub s.defaultPool.SIMDebt amount
  pure { s with defaultPool := { s.defaultPool with SIMDebt } }

end DefaultPool

/-! ## CollSurplusPool -/

namespace CollSurplusPool

/-- the collateral itself is sent later -/
def accountSurplus (account : Address) (amount : ℕ) : Res System := do
  require (caller = c.troveManager) "CollSurplusPool: Caller is not TroveManager"
  let newAmount ← uadd (s.collSurplusPool.balances account) amount
  pure { s with
    collSurplusPool :=
      { s.collSurplusPool with balances := Function.update s.collSurplusPool.balances account newAmount } }

def claimColl (account : Address) : Res System := do
  require (caller = c.borrowerOperations) "CollSurplusPool: Caller is not Borrower Operations"
  let claimableColl := s.collSurplusPool.balances account
  require (0 < claimableColl) "CollSurplusPool: No collateral available to claim"
  let balances := Function.update s.collSurplusPool.balances account 0
  let WSTETH ← usub s.collSurplusPool.WSTETH claimableColl
  transferWSTETH { s with collSurplusPool := { WSTETH, balances } } c.collSurplusPool account claimableColl

end CollSurplusPool

/-! ## System totals -/

def getEntireSystemColl : Res ℕ := uadd s.activePool.WSTETH s.defaultPool.WSTETH
def getEntireSystemDebt : Res ℕ := uadd s.activePool.SIMDebt s.defaultPool.SIMDebt

def getTCR (price : ℕ) : Res ℕ := do
  computeCR (← getEntireSystemColl s) (← getEntireSystemDebt s) price

def checkRecoveryMode (price : ℕ) : Res Bool := do
  pure (decide ((← getTCR s price) < CCR))

end SimContracts.Protocol
