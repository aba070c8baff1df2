import SimContracts.Core.Solidity
import SimContracts.Core.Ledger
import SimContracts.Core.Search
import SimContracts.Core.Decay
import SimContracts.Core.Roster
import SimContracts.Core.Accrual
import SimContracts.Core.Ratio
import SimContracts.Core.Power
import SimContracts.Base
import SimContracts.DecPow
import SimContracts.ERC20
import SimContracts.Controller
import SimContracts.Proxies
import SimContracts.Shady.Token
import SimContracts.Shady.System
import SimContracts.Shady.Lockup
import SimContracts.Shady.Holders
import SimContracts.Shady.Issuance
import SimContracts.PriceFeed
import SimContracts.PriceFeed.Total
import SimContracts.StabilityPool.Model
import SimContracts.StabilityPool.Steps
import SimContracts.StabilityPool.Product
import SimContracts.StabilityPool.Epochs
import SimContracts.StabilityPool.Rewards
import SimContracts.StabilityPool.Isolation
import SimContracts.StabilityPool.Deposits
import SimContracts.StabilityPool.Gains
import SimContracts.Ve.Model
import SimContracts.Ve.Calls
import SimContracts.Ve.Fill
import SimContracts.Ve.Supply
import SimContracts.Ve.History
import SimContracts.Ve.Runs
import SimContracts.Ve.Principal
import SimContracts.Ve.Locks
import SimContracts.Ve.Units
import SimContracts.VeDistributor.Model
import SimContracts.VeDistributor.Tokens
import SimContracts.VeDistributor.Claims
import SimContracts.VeDistributor.Weeks
import SimContracts.VeDistributor.Schedule
import SimContracts.VeDistributor.Payments
import SimContracts.SortedTroves
import SimContracts.SortedTroves.Chain
import SimContracts.SortedTroves.Total
import SimContracts.Protocol.Pools
import SimContracts.Protocol.Troves
import SimContracts.Protocol.Liquidation
import SimContracts.Protocol.Redemption
import SimContracts.Protocol.Borrowing
import SimContracts.Protocol.Steps
import SimContracts.Protocol.Moves
import SimContracts.Protocol.Registry
import SimContracts.Protocol.Books
import SimContracts.Protocol.Rewards
import SimContracts.Protocol.Stakes
import SimContracts.Protocol.Order
import SimContracts.Protocol.Donations
import SimContracts.Protocol.Modes
import SimContracts.Protocol.Sequences
import SimContracts.Protocol.Hints
import SimContracts.Protocol.Batches
import SimContracts.Protocol.PoolRuns
import SimContracts.Protocol.Offsets
import SimContracts.Protocol.Solvency
import SimContracts.Protocol.Redeeming
import SimContracts.Protocol.Bystanders
import SimContracts.Protocol.Closing
import SimContracts.Protocol.Failures
import SimContracts.Protocol.Eligible
import SimContracts.Protocol.Views
import SimContracts.Protocol.FaceValue
import SimContracts.Protocol.Terms
import SimContracts.Ve.Authority
import SimContracts.Ve.Governance
import SimContracts.Protocol.Start
import SimContracts.Protocol.BaseRate
import SimContracts.Core.Holdings
import SimContracts.Ve.Ownership
import SimContracts.Ve.Blocks
import SimContracts.Ve.Passes
import SimContracts.Ve.Clock
import SimContracts.Ve.BlockViews
import SimContracts.Ve.Derived
import SimContracts.Ve.WithdrawAll
import SimContracts.VeDistributor.Division
import SimContracts.VeDistributor.Searches
import SimContracts.VeDistributor.Solvency
import SimContracts.Protocol.RedeemFailures
