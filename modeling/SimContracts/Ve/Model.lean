/-
The vote escrow (`contracts/Ve.sol`): locks of staking tokens as NFTs whose voting power decays linearly to the end of
the lock, with a history of points for every NFT and for the whole.

The functions follow the source one by one. A call carries its environment: the block, `msg.sender`, and the
governance address the controller answers with. The staking tokens are standard ERC20 tokens (`erc20`), their decimals
and whether they look like one are parameters. What the receiver of an NFT answers to `onERC721Received` is an argument
of the call (`received`). The `nonReentrant` entry points call out to receivers only before they change any lock, and
to standard tokens, so calls do not nest.

`int128` arithmetic is checked (`i128`) and the explicit casts wrap (`asInt128`), as in the source. In `_checkpoint`
the variable `initialLastPoint` is a reference to the memory of `lastPoint`, not a copy, so its fields change with it.
-/
import SimContracts.Core.Search
import SimContracts.ERC20

namespace SimContracts.Ve

open Solidity

/-! ## Constants and state -/

def WEEK : ℕ := 7 * 86400
def MAX_TIME : ℕ := 16 * WEEK
def MULTIPLIER : ℕ := 10 ^ 18
def WEIGHT_DENOMINATOR : ℕ := 100 * 10 ^ 18
def GOV_ACTION_TIME_LOCK : ℕ := 18 * 3600
/-- length of the array of points of one NFT -/
def USER_POINTS : ℕ := 1000000000

structure Point where
  bias : ℤ
  slope : ℤ
  ts : ℕ
  blk : ℕ
deriving DecidableEq, Repr, Inhabited

inductive TimeLockType where
  | UNKNOWN
  | ADD_TOKEN
  | WHITELIST_TRANSFER
deriving DecidableEq, Repr

/-- what the contract knows about its tokens and itself -/
structure Config where
  self : Address
  decimals : Address → ℕ
  isERC20 : Address → Bool

/-- the block and the caller -/
structure Env where
  timestamp : ℕ
  number : ℕ
  sender : Address
  governance : Address

structure State where
  /-- the staking tokens themselves -/
  erc20 : Address → ERC20
  tokens : List Address
  tokenWeights : Address → ℕ
  isValidToken : Address → Bool
  tokenId : ℕ
  lockedAmounts : ℕ → Address → ℕ
  lockedDerivedAmount : ℕ → ℕ
  lockedEnd : ℕ → ℕ
  epoch : ℕ
  pointHistory : ℕ → Point
  userPointHistory : ℕ → ℕ → Point
  userPointEpoch : ℕ → ℕ
  slopeChanges : ℕ → ℤ
  ownershipChange : ℕ → ℕ
  idToOwner : ℕ → Address
  idToApprovals : ℕ → Address
  ownerToNFTokenCount : Address → ℕ
  ownerToNFTokenIdList : Address → ℕ → ℕ
  tokenToOwnerIndex : ℕ → ℕ
  ownerToOperators : Address → Address → Bool
  isWhitelistedTransfer : Address → Bool
  govActionTimeLock : TimeLockType → ℕ

/-- the state `setAddresses` leaves, with SHADY as the first staking token -/
def deploy (env : Env) (erc20 : Address → ERC20) (shady : Address) : State where
  erc20 := erc20
  tokens := [shady]
  tokenWeights := Function.update (fun _ => 0) shady (100 * 10 ^ 18)
  isValidToken := Function.update (fun _ => false) shady true
  tokenId := 0
  lockedAmounts := fun _ _ => 0
  lockedDerivedAmount := fun _ => 0
  lockedEnd := fun _ => 0
  epoch := 0
  pointHistory := Function.update (fun _ => ⟨0, 0, 0, 0⟩) 0 ⟨0, 0, env.timestamp, env.number⟩
  userPointHistory := fun _ _ => ⟨0, 0, 0, 0⟩
  userPointEpoch := fun _ => 0
  slopeChanges := fun _ => 0
  ownershipChange := fun _ => 0
  idToOwner := fun _ => 0
  idToApprovals := fun _ => 0
  ownerToNFTokenCount := fun _ => 0
  ownerToNFTokenIdList := fun _ _ => 0
  tokenToOwnerIndex := fun _ => 0
  ownerToOperators := fun _ _ => false
  isWhitelistedTransfer := fun _ => false
  govActionTimeLock := fun _ => 0

/-! ## FixedPointMathLib -/

/-- a revert without a reason, from assembly -/
def revertEmpty : Revert := .error ""

def mulDivDown (x y denominator : ℕ) : Res ℕ :=
  if denominator ≠ 0 ∧ x * y < 2 ^ 256 then .ok (x * y / denominator) else .error revertEmpty

def mulDivUp (x y denominator : ℕ) : Res ℕ :=
  if denominator ≠ 0 ∧ x * y < 2 ^ 256 then .ok (if x * y = 0 then 0 else (x * y - 1) / denominator + 1)
  else .error revertEmpty

def divWadDown (x y : ℕ) : Res ℕ := mulDivDown x (10 ^ 18) y
def divWadUp (x y : ℕ) : Res ℕ := mulDivUp x (10 ^ 18) y

def positiveInt128 (value : ℤ) : ℤ := max value 0

/-! ## NFT logic -/

/-- `m[a][b] = v` -/
def update2 {α β γ : Type} [DecidableEq α] [DecidableEq β] (m : α → β → γ) (a : α) (b : β) (v : γ) : α → β → γ :=
  Function.update m a (Function.update (m a) b v)

section Update2

variable {α β γ : Type} [DecidableEq α] [DecidableEq β] {m : α → β → γ} {a a' : α} {b : β} {v : γ}

theorem update2_row : update2 m a b v a = Function.update (m a) b v := Function.update_self ..

theorem update2_of_ne (h : a' ≠ a) : update2 m a b v a' = m a' := Function.update_of_ne h ..

end Update2

def isApprovedOrOwner (s : State) (spender : Address) (id : ℕ) : Bool :=
  s.idToOwner id = spender ∨ spender = s.idToApprovals id ∨ s.ownerToOperators (s.idToOwner id) spender

def addTokenToOwnerList (s : State) (dst : Address) (id : ℕ) : State :=
  let currentCount := s.ownerToNFTokenCount dst
  { s with
    ownerToNFTokenIdList := update2 s.ownerToNFTokenIdList dst currentCount id
    tokenToOwnerIndex := Function.update s.tokenToOwnerIndex id currentCount }

def removeTokenFromOwnerList (s : State) (src : Address) (id : ℕ) : Res State := do
  let currentCount ← usub (s.ownerToNFTokenCount src) 1
  let currentIndex := s.tokenToOwnerIndex id
  if currentCount = currentIndex then
    pure { s with
      ownerToNFTokenIdList := update2 s.ownerToNFTokenIdList src currentCount 0
      tokenToOwnerIndex := Function.update s.tokenToOwnerIndex id 0 }
  else
    let lastTokenId := s.ownerToNFTokenIdList src currentCount
    pure { s with
      ownerToNFTokenIdList :=
        update2 (update2 s.ownerToNFTokenIdList src currentIndex lastTokenId) src currentCount 0
      tokenToOwnerIndex :=
        Function.update (Function.update s.tokenToOwnerIndex lastTokenId currentIndex) id 0 }

def addTokenTo (s : State) (dst : Address) (id : ℕ) : Res State := do
  let s := { s with idToOwner := Function.update s.idToOwner id dst }
  let s := addTokenToOwnerList s dst id
  let count ← uadd (s.ownerToNFTokenCount dst) 1
  pure { s with ownerToNFTokenCount := Function.update s.ownerToNFTokenCount dst count }

def removeTokenFrom (s : State) (src : Address) (id : ℕ) : Res State := do
  require (s.idToOwner id = src) "NOT_OWNER"
  let s := { s with idToOwner := Function.update s.idToOwner id 0 }
  let s ← removeTokenFromOwnerList s src id
  let count ← usub (s.ownerToNFTokenCount src) 1
  pure { s with ownerToNFTokenCount := Function.update s.ownerToNFTokenCount src count }

def transferFrom (s : State) (env : Env) (src dst : Address) (id : ℕ) : Res State := do
  require (isApprovedOrOwner s env.sender id) "NOT_OWNER"
  require (dst ≠ 0) "WRONG_INPUT"
  let s := { s with idToApprovals := Function.update s.idToApprovals id 0 }
  let s ← removeTokenFrom s src id
  let s ← addTokenTo s dst id
  pure { s with ownershipChange := Function.update s.ownershipChange id env.number }

/-- `received` is the outcome of `_checkOnERC721Received` -/
def safeTransferFrom (s : State) (env : Env) (src dst : Address) (id : ℕ) (received : Res Bool) : Res State := do
  require (s.isWhitelistedTransfer dst ∨ s.isWhitelistedTransfer src) "FORBIDDEN"
  let s ← transferFrom s env src dst id
  let answer ← received
  require (answer = true) "ERC721: transfer to non ERC721Receiver implementer"
  pure s

def approve (s : State) (env : Env) (approved : Address) (id : ℕ) : Res State := do
  let owner := s.idToOwner id
  require (owner ≠ 0) "WRONG_INPUT"
  require (approved ≠ owner) "IDENTICAL_ADDRESS"
  require (owner = env.sender ∨ s.ownerToOperators owner env.sender) "NOT_OWNER"
  pure { s with idToApprovals := Function.update s.idToApprovals id approved }

def setApprovalForAll (s : State) (env : Env) (operator : Address) (approved : Bool) : Res State := do
  require (operator ≠ env.sender) "IDENTICAL_ADDRESS"
  pure { s with ownerToOperators := update2 s.ownerToOperators env.sender operator approved }

def mint (s : State) (dst : Address) (id : ℕ) (received : Res Bool) : Res State := do
  require (dst ≠ 0) "WRONG_INPUT"
  let s ← addTokenTo s dst id
  let answer ← received
  require (answer = true) "ERC721: transfer to non ERC721Receiver implementer"
  pure s

def burn (s : State) (env : Env) (id : ℕ) : Res State := do
  let owner := s.idToOwner id
  let s ← approve s env 0 id
  removeTokenFrom s owner id

def incrementTokenIdAndGet (s : State) : Res (State × ℕ) := do
  let id ← uadd s.tokenId 1
  pure ({ s with tokenId := id }, id)

/-! ## Checkpoints -/

structure CheckpointInfo where
  tokenId : ℕ
  oldDerivedAmount : ℕ
  newDerivedAmount : ℕ
  oldEnd : ℕ
  newEnd : ℕ

/-- slope of a lock of a derived amount -/
def slopeOf (derivedAmount : ℕ) : ℤ := (asInt128 derivedAmount).tdiv MAX_TIME

/-- slope and bias of a lock at `now`; zero when the lock is over or empty -/
def lockLine (now derivedAmount lockEnd : ℕ) : Res (ℤ × ℤ) :=
  if now < lockEnd ∧ 0 < derivedAmount then do
    let slope := slopeOf derivedAmount
    let bias ← i128 (slope * asInt128 (lockEnd - now : ℕ))
    pure (slope, bias)
  else .ok (0, 0)

/-- the loop variables of the weekly fill -/
structure Fill where
  ti : ℕ
  lastCheckpoint : ℕ
  lastPoint : Point
  epoch : ℕ
  pointHistory : ℕ → Point

/-- one round of the fill, up to the next week boundary or to now -/
def fillWeek (slopeChanges : ℕ → ℤ) (now blockSlope : ℕ) (f : Fill) : Res Fill := do
  let next ← uadd f.ti WEEK
  let ti := if now < next then now else next
  let dSlope := if now < next then 0 else slopeChanges next
  let dt ← usub ti f.lastCheckpoint
  let decay ← i128 (f.lastPoint.slope * asInt128 dt)
  let bias ← i128 (f.lastPoint.bias - decay)
  let slope ← i128 (f.lastPoint.slope + dSlope)
  let lastPoint := { f.lastPoint with bias := positiveInt128 bias, slope := positiveInt128 slope, ts := ti }
  -- `initialLastPoint` is this same point, its `ts` is already `ti`
  let initialLastPoint := lastPoint
  let elapsed ← umul blockSlope (← usub ti initialLastPoint.ts)
  let blk ← uadd initialLastPoint.blk (elapsed / MULTIPLIER)
  let epoch ← uadd f.epoch 1
  pure { f with ti, lastCheckpoint := ti, lastPoint := { lastPoint with blk }, epoch }

/-- go over weeks to fill history and calculate what the current point is, at most as many rounds as given -/
def fillWeeks (slopeChanges : ℕ → ℤ) (env : Env) (blockSlope : ℕ) : ℕ → Fill → Res Fill
  | 0, f => .ok f
  | rounds + 1, f => do
    let f ← fillWeek slopeChanges env.timestamp blockSlope f
    if f.ti = env.timestamp then
      pure { f with lastPoint := { f.lastPoint with blk := env.number } }
    else
      fillWeeks slopeChanges env blockSlope rounds
        { f with pointHistory := Function.update f.pointHistory f.epoch f.lastPoint }

/-- blocks per second since the last point, times `MULTIPLIER` -/
def blockSlopeSince (env : Env) (lastPoint : Point) : Res ℕ :=
  if lastPoint.ts < env.timestamp then do
    let blocks ← umul MULTIPLIER (← usub env.number lastPoint.blk)
    udiv blocks (env.timestamp - lastPoint.ts)
  else .ok 0

/-- the history filled up to now; the last point is not recorded yet -/
def fillHistory (s : State) (env : Env) : Res Fill := do
  let lastPoint := if 0 < s.epoch then s.pointHistory s.epoch else ⟨0, 0, env.timestamp, env.number⟩
  let blockSlope ← blockSlopeSince env lastPoint
  fillWeeks s.slopeChanges env blockSlope 255
    { ti := lastPoint.ts / WEEK * WEEK, lastCheckpoint := lastPoint.ts, lastPoint, epoch := s.epoch,
      pointHistory := s.pointHistory }

/-- the global point with the old line of a lock exchanged for its new one -/
def addLock (p : Point) (uOld uNew : ℤ × ℤ) : Res Point := do
  let slope ← i128 (p.slope + (← i128 (uNew.1 - uOld.1)))
  let bias ← i128 (p.bias + (← i128 (uNew.2 - uOld.2)))
  pure { p with slope := positiveInt128 slope, bias := positiveInt128 bias }

/-- cancel the old lock's slope change; for an unchanged end, schedule the new one in its place -/
def rescheduleOld (slopeChanges : ℕ → ℤ) (now : ℕ) (info : CheckpointInfo) (oldSlope newSlope : ℤ) : Res (ℕ → ℤ) :=
  if now < info.oldEnd then do
    let oldDSlope ← i128 (slopeChanges info.oldEnd + oldSlope)
    if info.newEnd = info.oldEnd then
      let oldDSlope ← i128 (oldDSlope - newSlope)
      pure (Function.update slopeChanges info.oldEnd oldDSlope)
    else pure (Function.update slopeChanges info.oldEnd oldDSlope)
  else .ok slopeChanges

/-- schedule the new lock's slope change at a later end -/
def scheduleNew (slopeChanges : ℕ → ℤ) (now : ℕ) (info : CheckpointInfo) (newSlope newDSlope : ℤ) : Res (ℕ → ℤ) :=
  if now < info.newEnd ∧ info.oldEnd < info.newEnd then do
    let newDSlope ← i128 (newDSlope - newSlope)
    pure (Function.update slopeChanges info.newEnd newDSlope)
  else .ok slopeChanges

/-- the `_checkpoint` of no NFT: fill and record the global history -/
def checkpointGlobal (s : State) (env : Env) : Res State := do
  let f ← fillHistory s env
  pure { s with epoch := f.epoch, pointHistory := Function.update f.pointHistory f.epoch f.lastPoint }

/-- the `_checkpoint` of an NFT whose lock changes -/
def checkpointLock (s : State) (env : Env) (info : CheckpointInfo) : Res State := do
  let uOld ← lockLine env.timestamp info.oldDerivedAmount info.oldEnd
  let uNew ← lockLine env.timestamp info.newDerivedAmount info.newEnd
  let newDSlope := if info.newEnd ≠ 0 then s.slopeChanges info.newEnd else 0
  let f ← fillHistory s env
  let lastPoint ← addLock f.lastPoint uOld uNew
  let slopeChanges ← rescheduleOld s.slopeChanges env.timestamp info uOld.1 uNew.1
  let slopeChanges ← scheduleNew slopeChanges env.timestamp info uNew.1 newDSlope
  let userEpoch ← uadd (s.userPointEpoch info.tokenId) 1
  inBounds userEpoch USER_POINTS
  pure { s with
    epoch := f.epoch
    pointHistory := Function.update f.pointHistory f.epoch lastPoint
    slopeChanges := slopeChanges
    userPointEpoch := Function.update s.userPointEpoch info.tokenId userEpoch
    userPointHistory := update2 s.userPointHistory info.tokenId userEpoch
      { slope := uNew.1, bias := uNew.2, ts := env.timestamp, blk := env.number } }

/-- record global and per-user data to checkpoint -/
def checkpointWith (s : State) (env : Env) (info : CheckpointInfo) : Res State :=
  if info.tokenId = 0 then checkpointGlobal s env else checkpointLock s env info

def checkpoint (s : State) (env : Env) : Res State := checkpointWith s env ⟨0, 0, 0, 0, 0⟩

/-! ## Voting power -/

/-- the current voting power of an NFT: its last point, extrapolated -/
def balanceOfNFTAt (s : State) (id t : ℕ) : Res ℕ :=
  if s.userPointEpoch id = 0 then .ok 0
  else do
    let lastPoint := s.userPointHistory id (s.userPointEpoch id)
    require (lastPoint.ts ≤ t) "WRONG_INPUT"
    let dt ← i256 (asInt256 t - asInt256 lastPoint.ts)
    let decay ← i128 (lastPoint.slope * asInt128 dt)
    let bias ← i128 (lastPoint.bias - decay)
    pure (positiveInt128 bias).toNat

/-- the power now, zero in the block in which the owner changed -/
def balanceOfNFT (s : State) (env : Env) (id : ℕ) : Res ℕ :=
  if s.ownershipChange id = env.number then .ok 0 else balanceOfNFTAt s id env.timestamp

/-- the loop of `_supplyAt`: the bias of the point carried forward to `t`, week by week -/
def supplyWeeks (slopeChanges : ℕ → ℤ) (t : ℕ) : ℕ → ℕ → Point → Res ℤ
  | 0, _, lastPoint => .ok lastPoint.bias
  | rounds + 1, ti, lastPoint => do
    let next ← uadd ti WEEK
    let ti := if t < next then t else next
    let dSlope := if t < next then 0 else slopeChanges next
    let dt ← usub ti lastPoint.ts
    let decay ← i128 (lastPoint.slope * asInt128 dt)
    let bias ← i128 (lastPoint.bias - decay)
    if ti = t then pure bias
    else
      let slope ← i128 (lastPoint.slope + dSlope)
      supplyWeeks slopeChanges t rounds ti { lastPoint with bias, slope, ts := ti }

def supplyAt (s : State) (point : Point) (t : ℕ) : Res ℕ := do
  let bias ← supplyWeeks s.slopeChanges t 255 (point.ts / WEEK * WEEK) point
  pure (positiveInt128 bias).toNat

def totalSupplyAtT (s : State) (t : ℕ) : Res ℕ := supplyAt s (s.pointHistory s.epoch) t

/-- last epoch whose point is not after the block -/
def findBlockEpoch (s : State) (block maxEpoch : ℕ) : ℕ :=
  Search.searchLast (fun i => (s.pointHistory i).blk) block 1 128 0 maxEpoch

/-- blocks and seconds from a point to the next one, or to now -/
def pointSpan (s : State) (env : Env) (epoch : ℕ) : Res (ℕ × ℕ) :=
  let point0 := s.pointHistory epoch
  if epoch < s.epoch then do
    let point1 := s.pointHistory (epoch + 1)
    let dBlock ← usub point1.blk point0.blk
    let dt ← usub point1.ts point0.ts
    pure (dBlock, dt)
  else do
    let dBlock ← usub env.number point0.blk
    let dt ← usub env.timestamp point0.ts
    pure (dBlock, dt)

/-- time of a block, interpolated from a point -/
def blockTime (point0 : Point) (block dBlock dt : ℕ) : Res ℕ :=
  if dBlock ≠ 0 ∧ point0.blk < block then do
    let elapsed ← umul dt (block - point0.blk)
    uadd point0.ts (elapsed / dBlock)
  else .ok point0.ts

/-- voting power of an NFT at a block -/
def balanceOfAtNFT (s : State) (env : Env) (id block : ℕ) : Res ℕ := do
  require (block ≤ env.number) "WRONG_INPUT"
  let userEpoch := Search.searchLast (fun i => (s.userPointHistory id i).blk) block 1 128 0 (s.userPointEpoch id)
  let uPoint := s.userPointHistory id userEpoch
  let epoch := findBlockEpoch s block s.epoch
  let (dBlock, dt) ← pointSpan s env epoch
  let time ← blockTime (s.pointHistory epoch) block dBlock dt
  let dt ← usub time uPoint.ts
  let decay ← i128 (uPoint.slope * asInt128 dt)
  let bias ← i128 (uPoint.bias - decay)
  pure (positiveInt128 bias).toNat

/-- seconds from a point to a block, interpolated to the next point or to now -/
def secondsToBlock (s : State) (env : Env) (block targetEpoch : ℕ) : Res ℕ :=
  let point := s.pointHistory targetEpoch
  if targetEpoch < s.epoch then do
    let pointNext := s.pointHistory (targetEpoch + 1)
    let dt ← usub pointNext.ts point.ts
    let elapsed ← umul (block - point.blk) dt
    let dBlock ← usub pointNext.blk point.blk
    udiv elapsed dBlock
  else if point.blk ≠ env.number then do
    let dt ← usub env.timestamp point.ts
    let elapsed ← umul (block - point.blk) dt
    let dBlock ← usub env.number point.blk
    udiv elapsed dBlock
  else .ok 0

def totalSupplyAt (s : State) (env : Env) (block : ℕ) : Res ℕ := do
  require (block ≤ env.number) "WRONG_INPUT"
  let targetEpoch := findBlockEpoch s block s.epoch
  let point := s.pointHistory targetEpoch
  if block < point.blk then pure 0
  else
    let dt ← secondsToBlock s env block targetEpoch
    let t ← uadd point.ts dt
    supplyAt s point t

/-! ## Deposits and withdrawals -/

inductive DepositType where
  | DEPOSIT_FOR_TYPE
  | CREATE_LOCK_TYPE
  | INCREASE_LOCK_AMOUNT
  | INCREASE_UNLOCK_TIME
  | MERGE_TYPE
deriving DecidableEq, Repr

structure DepositInfo where
  stakingToken : Address
  tokenId : ℕ
  value : ℕ
  unlockTime : ℕ
  lockedAmount : ℕ
  lockedDerivedAmount : ℕ
  lockedEnd : ℕ
  depositType : DepositType

def pullStakingToken (cfg : Config) (s : State) (token src : Address) (amount : ℕ) : Res State := do
  let t ← (s.erc20 token).transferFrom cfg.self src cfg.self amount
  pure { s with erc20 := Function.update s.erc20 token t }

def transferUnderlyingToken (cfg : Config) (s : State) (token recipient : Address) (amount : ℕ) : Res State := do
  let t ← (s.erc20 token).transfer cfg.self recipient amount
  pure { s with erc20 := Function.update s.erc20 token t }

/-- the old derived amount less what the current amount gave it, rounded up, at least zero -/
def subtractDerived (currentAmount oldDerivedAmount weight unit : ℕ) : Res ℕ :=
  if oldDerivedAmount ≠ 0 ∧ currentAmount ≠ 0 then do
    let currentAmount ← divWadUp currentAmount unit
    let currentDerivedAmount ← mulDivUp currentAmount weight WEIGHT_DENOMINATOR
    pure (if currentDerivedAmount < oldDerivedAmount then oldDerivedAmount - currentDerivedAmount else 0)
  else .ok oldDerivedAmount

def calculateDerivedAmount (currentAmount oldDerivedAmount newAmount weight decimals : ℕ) : Res ℕ := do
  let unit ← fits 256 (10 ^ decimals)
  let oldDerivedAmount ← subtractDerived currentAmount oldDerivedAmount weight unit
  let newAmount ← divWadDown newAmount unit
  let newAmount ← mulDivDown newAmount weight WEIGHT_DENOMINATOR
  uadd oldDerivedAmount newAmount

/-- the amounts part of `_depositFor`: the new derived amount and the state with the new amounts -/
def depositAmount (cfg : Config) (s : State) (info : DepositInfo) : Res (State × ℕ) :=
  if info.value ≠ 0 then do
    let newAmount ← uadd info.lockedAmount info.value
    let newLockedDerivedAmount ← calculateDerivedAmount info.lockedAmount info.lockedDerivedAmount newAmount
      (s.tokenWeights info.stakingToken) (cfg.decimals info.stakingToken)
    pure ({ s with
      lockedAmounts := update2 s.lockedAmounts info.tokenId info.stakingToken newAmount
      lockedDerivedAmount := Function.update s.lockedDerivedAmount info.tokenId newLockedDerivedAmount },
      newLockedDerivedAmount)
  else .ok (s, info.lockedDerivedAmount)

/-- the lock end part of `_depositFor` -/
def depositEnd (s : State) (info : DepositInfo) : State × ℕ :=
  if info.unlockTime ≠ 0 then
    ({ s with lockedEnd := Function.update s.lockedEnd info.tokenId info.unlockTime }, info.unlockTime)
  else (s, info.lockedEnd)

/-- the token part of `_depositFor`: a merge moves nothing -/
def depositTokens (cfg : Config) (s : State) (env : Env) (info : DepositInfo) : Res State :=
  if info.value ≠ 0 ∧ info.depositType ≠ .MERGE_TYPE then
    pullStakingToken cfg s info.stakingToken env.sender info.value
  else .ok s

def depositFor (cfg : Config) (s : State) (env : Env) (info : DepositInfo) : Res State := do
  let (s, newLockedDerivedAmount) ← depositAmount cfg s info
  let (s, newLockedEnd) := depositEnd s info
  let s ← checkpointWith s env
    ⟨info.tokenId, info.lockedDerivedAmount, newLockedDerivedAmount, info.lockedEnd, newLockedEnd⟩
  depositTokens cfg s env info

/-! ## Locks -/

/-- the block time plus a duration, rounded down to weeks -/
def unlockTimeOf (env : Env) (lockDuration : ℕ) : Res ℕ := do
  let t ← uadd env.timestamp lockDuration
  pure (t / WEEK * WEEK)

/-- `createLockFor`, and `createLock` with the sender as receiver -/
def createLockFor (cfg : Config) (s : State) (env : Env) (token : Address) (value lockDuration : ℕ) (dst : Address)
    (received : Res Bool) : Res (State × ℕ) := do
  require (0 < value) "WRONG_INPUT"
  let unlockTime ← unlockTimeOf env lockDuration
  require (env.timestamp < unlockTime) "LOW_LOCK_PERIOD"
  let maxTime ← uadd env.timestamp MAX_TIME
  require (unlockTime ≤ maxTime) "HIGH_LOCK_PERIOD"
  require (s.isValidToken token) "INVALID_TOKEN"
  let (s, id) ← incrementTokenIdAndGet s
  let s ← mint s dst id received
  let s ← depositFor cfg s env
    { stakingToken := token, tokenId := id, value, unlockTime, lockedAmount := 0, lockedDerivedAmount := 0,
      lockedEnd := 0, depositType := .CREATE_LOCK_TYPE }
  pure (s, id)

def createLock (cfg : Config) (s : State) (env : Env) (token : Address) (value lockDuration : ℕ)
    (received : Res Bool) : Res (State × ℕ) :=
  createLockFor cfg s env token value lockDuration env.sender received

def increaseAmount (cfg : Config) (s : State) (env : Env) (token : Address) (id value : ℕ) : Res State := do
  require (0 < value) "WRONG_INPUT"
  require (0 < s.lockedDerivedAmount id) "NFT_WITHOUT_POWER"
  require (env.timestamp < s.lockedEnd id) "EXPIRED"
  require (s.isValidToken token) "INVALID_TOKEN"
  depositFor cfg s env
    { stakingToken := token, tokenId := id, value, unlockTime := 0, lockedAmount := s.lockedAmounts id token,
      lockedDerivedAmount := s.lockedDerivedAmount id, lockedEnd := s.lockedEnd id,
      depositType := .INCREASE_LOCK_AMOUNT }

/-- also returns the power and the unlock date -/
def increaseUnlockTime (cfg : Config) (s : State) (env : Env) (id lockDuration : ℕ) : Res (State × ℕ × ℕ) := do
  let unlockTime ← unlockTimeOf env lockDuration
  require (0 < s.lockedDerivedAmount id) "NFT_WITHOUT_POWER"
  require (env.timestamp < s.lockedEnd id) "EXPIRED"
  require (s.lockedEnd id < unlockTime) "LOW_UNLOCK_TIME"
  let maxTime ← uadd env.timestamp MAX_TIME
  require (unlockTime ≤ maxTime) "HIGH_LOCK_PERIOD"
  require (isApprovedOrOwner s env.sender id) "NOT_OWNER"
  let s ← depositFor cfg s env
    { stakingToken := 0, tokenId := id, value := 0, unlockTime, lockedAmount := 0,
      lockedDerivedAmount := s.lockedDerivedAmount id, lockedEnd := s.lockedEnd id,
      depositType := .INCREASE_UNLOCK_TIME }
  let power ← balanceOfNFT s env id
  pure (s, power, s.lockedEnd id)

/-- the token loop of `merge`: each token of `src` is deposited for `dst`, with the lock end of `dst` before the first
deposit and `lockEnd` after it -/
def mergeTokens (cfg : Config) (env : Env) (src dst lockEnd : ℕ) : List Address → State → ℕ → Res State
  | [], s, _ => .ok s
  | token :: rest, s, newLockedEndTo =>
    if s.lockedAmounts src token = 0 then mergeTokens cfg env src dst lockEnd rest s newLockedEndTo
    else do
      let lockedAmountFrom := s.lockedAmounts src token
      let s := { s with lockedAmounts := update2 s.lockedAmounts src token 0 }
      let s ← depositFor cfg s env
        { stakingToken := token, tokenId := dst, value := lockedAmountFrom, unlockTime := lockEnd,
          lockedAmount := s.lockedAmounts dst token, lockedDerivedAmount := s.lockedDerivedAmount dst,
          lockedEnd := newLockedEndTo, depositType := .MERGE_TYPE }
      mergeTokens cfg env src dst lockEnd rest s lockEnd

def merge (cfg : Config) (s : State) (env : Env) (src dst : ℕ) : Res State := do
  require (src ≠ dst) "IDENTICAL_ADDRESS"
  require (s.idToOwner src = env.sender ∧ s.idToOwner dst = env.sender) "NOT_OWNER"
  let lockedEndFrom := s.lockedEnd src
  let lockedEndTo := s.lockedEnd dst
  require (env.timestamp < lockedEndFrom ∧ env.timestamp < lockedEndTo) "EXPIRED"
  let lockEnd := max lockedEndFrom lockedEndTo
  let oldDerivedAmount := s.lockedDerivedAmount src
  let s ← mergeTokens cfg env src dst lockEnd s.tokens s lockedEndTo
  let s := { s with
    lockedDerivedAmount := Function.update s.lockedDerivedAmount src 0
    lockedEnd := Function.update s.lockedEnd src 0 }
  let s ← checkpointWith s env ⟨src, oldDerivedAmount, 0, lockedEndFrom, lockedEndFrom⟩
  burn s env src

/-- the token loop of `split`, with the derived amount left to the NFT that is split -/
def splitTokens (cfg : Config) (env : Env) (id newId percent lockEnd : ℕ) : List Address → State → ℕ → Res (State × ℕ)
  | [], s, derived => .ok (s, derived)
  | token :: rest, s, derived =>
    if s.lockedAmounts id token = 0 then splitTokens cfg env id newId percent lockEnd rest s derived
    else do
      let lockedAmount := s.lockedAmounts id token
      let amountForNewNFT ← udiv (← umul lockedAmount percent) (100 * 10 ^ 18)
      require (amountForNewNFT ≠ 0) "LOW_PERCENT"
      let remaining ← usub lockedAmount amountForNewNFT
      let newLockedDerivedAmount ← calculateDerivedAmount lockedAmount derived remaining (s.tokenWeights token)
        (cfg.decimals token)
      let s := { s with lockedAmounts := update2 s.lockedAmounts id token remaining }
      let s ← depositFor cfg s env
        { stakingToken := token, tokenId := newId, value := amountForNewNFT, unlockTime := lockEnd,
          lockedAmount := 0, lockedDerivedAmount := s.lockedDerivedAmount newId, lockedEnd := lockEnd,
          depositType := .MERGE_TYPE }
      splitTokens cfg env id newId percent lockEnd rest s newLockedDerivedAmount

def split (cfg : Config) (s : State) (env : Env) (id percent : ℕ) (received : Res Bool) : Res State := do
  require (s.idToOwner id = env.sender) "NOT_OWNER"
  require (percent ≠ 0 ∧ percent < 100 * 10 ^ 18) "WRONG_INPUT"
  let oldLockedDerivedAmount := s.lockedDerivedAmount id
  let lockEnd := s.lockedEnd id
  require (env.timestamp < lockEnd) "EXPIRED"
  let (s, newId) ← incrementTokenIdAndGet s
  let s ← mint s env.sender newId received
  let (s, derived) ← splitTokens cfg env id newId percent lockEnd s.tokens s oldLockedDerivedAmount
  let s := { s with lockedDerivedAmount := Function.update s.lockedDerivedAmount id derived }
  checkpointWith s env ⟨id, oldLockedDerivedAmount, derived, lockEnd, lockEnd⟩

/-- an NFT without power left is burned -/
def burnIfEmpty (s : State) (env : Env) (id newLockedDerivedAmount : ℕ) : Res State :=
  if newLockedDerivedAmount = 0 then burn s env id else .ok s

def withdraw (cfg : Config) (s : State) (env : Env) (token : Address) (id : ℕ) : Res State := do
  require (isApprovedOrOwner s env.sender id) "NOT_OWNER"
  let oldLockedAmount := s.lockedAmounts id token
  let oldLockedDerivedAmount := s.lockedDerivedAmount id
  let oldLockedEnd := s.lockedEnd id
  require (oldLockedEnd ≤ env.timestamp) "NOT_EXPIRED"
  require (0 < oldLockedAmount) "ZERO_LOCKED"
  let newLockedDerivedAmount ← calculateDerivedAmount oldLockedAmount oldLockedDerivedAmount 0
    (s.tokenWeights token) (cfg.decimals token)
  -- if no tokens set lock to zero
  let newLockEnd := if newLockedDerivedAmount = 0 then 0 else oldLockedEnd
  let s := { s with
    lockedEnd := Function.update s.lockedEnd id newLockEnd
    lockedDerivedAmount := Function.update s.lockedDerivedAmount id newLockedDerivedAmount
    lockedAmounts := update2 s.lockedAmounts id token 0 }
  let s ← checkpointWith s env ⟨id, oldLockedDerivedAmount, newLockedDerivedAmount, oldLockedEnd, newLockEnd⟩
  let s ← burnIfEmpty s env id newLockedDerivedAmount
  transferUnderlyingToken cfg s token env.sender oldLockedAmount

/-- the loop of `withdrawAll` -/
def withdrawTokens (cfg : Config) (env : Env) (id : ℕ) : List Address → State → Res State
  | [], s => .ok s
  | token :: rest, s =>
    if s.lockedAmounts id token ≠ 0 then do
      let s ← withdraw cfg s env token id
      withdrawTokens cfg env id rest s
    else withdrawTokens cfg env id rest s

def withdrawAll (cfg : Config) (s : State) (env : Env) (id : ℕ) : Res State :=
  withdrawTokens cfg env id s.tokens s

/-! ## Governance -/

def announceAction (s : State) (env : Env) (type : TimeLockType) : Res State := do
  require (env.sender = env.governance) "FORBIDDEN"
  require (s.govActionTimeLock type = 0 ∧ type ≠ .UNKNOWN) "WRONG_INPUT"
  let timeLock ← uadd env.timestamp GOV_ACTION_TIME_LOCK
  pure { s with govActionTimeLock := Function.update s.govActionTimeLock type timeLock }

def whitelistTransferFor (s : State) (env : Env) (value : Address) : Res State := do
  require (env.sender = env.governance) "FORBIDDEN"
  require (value ≠ 0) "WRONG_INPUT"
  let timeLock := s.govActionTimeLock .WHITELIST_TRANSFER
  require (timeLock ≠ 0 ∧ timeLock < env.timestamp) "TIME_LOCK"
  pure { s with
    isWhitelistedTransfer := Function.update s.isWhitelistedTransfer value true
    govActionTimeLock := Function.update s.govActionTimeLock .WHITELIST_TRANSFER 0 }

def addToken (cfg : Config) (s : State) (env : Env) (token : Address) (weight : ℕ) : Res State := do
  require (env.sender = env.governance) "FORBIDDEN"
  let timeLock := s.govActionTimeLock .ADD_TOKEN
  require (timeLock ≠ 0 ∧ timeLock < env.timestamp) "TIME_LOCK"
  require (token ≠ 0 ∧ weight ≠ 0) "WRONG_INPUT"
  require (cfg.isERC20 token) "Not ERC20"
  require (token ∉ s.tokens) "WRONG_INPUT"
  pure { s with
    tokens := s.tokens ++ [token]
    tokenWeights := Function.update s.tokenWeights token weight
    isValidToken := Function.update s.isValidToken token true
    govActionTimeLock := Function.update s.govActionTimeLock .ADD_TOKEN 0 }

/-! ## The contract under any calls -/

inductive Call where
  | createLockFor (token : Address) (value lockDuration : ℕ) (dst : Address) (received : Res Bool)
  | createLock (token : Address) (value lockDuration : ℕ) (received : Res Bool)
  | increaseAmount (token : Address) (id value : ℕ)
  | increaseUnlockTime (id lockDuration : ℕ)
  | merge (src dst : ℕ)
  | split (id percent : ℕ) (received : Res Bool)
  | withdraw (token : Address) (id : ℕ)
  | withdrawAll (id : ℕ)
  | checkpoint
  | safeTransferFrom (src dst : Address) (id : ℕ) (received : Res Bool)
  | approve (approved : Address) (id : ℕ)
  | setApprovalForAll (operator : Address) (approved : Bool)
  | announceAction (type : TimeLockType)
  | whitelistTransferFor (value : Address)
  | addToken (token : Address) (weight : ℕ)
  /-- a transfer or approval of a staking token by an account that is not this contract -/
  | tokenTransfer (token dst : Address) (amount : ℕ)
  | tokenTransferFrom (token src dst : Address) (amount : ℕ)
  | tokenApprove (token spender : Address) (amount : ℕ)

def exec (cfg : Config) (s : State) (env : Env) : Call → Res State
  | .createLockFor token value lockDuration dst received => do
    let (s, _) ← createLockFor cfg s env token value lockDuration dst received
    pure s
  | .createLock token value lockDuration received => do
    let (s, _) ← createLock cfg s env token value lockDuration received
    pure s
  | .increaseAmount token id value => increaseAmount cfg s env token id value
  | .increaseUnlockTime id lockDuration => do
    let (s, _) ← increaseUnlockTime cfg s env id lockDuration
    pure s
  | .merge src dst => merge cfg s env src dst
  | .split id percent received => split cfg s env id percent received
  | .withdraw token id => withdraw cfg s env token id
  | .withdrawAll id => withdrawAll cfg s env id
  | .checkpoint => checkpoint s env
  | .safeTransferFrom src dst id received => safeTransferFrom s env src dst id received
  | .approve approved id => approve s env approved id
  | .setApprovalForAll operator approved => setApprovalForAll s env operator approved
  | .announceAction type => announceAction s env type
  | .whitelistTransferFor value => whitelistTransferFor s env value
  | .addToken token weight => addToken cfg s env token weight
  | .tokenTransfer token dst amount => do
    require (env.sender ≠ cfg.self) "not an account"
    let t ← (s.erc20 token).transfer env.sender dst amount
    pure { s with erc20 := Function.update s.erc20 token t }
  | .tokenTransferFrom token src dst amount => do
    require (env.sender ≠ cfg.self) "not an account"
    let t ← (s.erc20 token).transferFrom env.sender src dst amount
    pure { s with erc20 := Function.update s.erc20 token t }
  | .tokenApprove token spender amount => do
    require (env.sender ≠ cfg.self) "not an account"
    let t ← (s.erc20 token).approve env.sender spender amount
    pure { s with erc20 := Function.update s.erc20 token t }

/-- calls, each in its own environment -/
def execIn (cfg : Config) (s : State) (c : Env × Call) : Res State := exec cfg s c.1 c.2

end SimContracts.Ve
