/-
The distributor of rewards to lock holders (`contracts/VeDistributor.sol`). Rewards that arrive are spread over the
weeks since the last checkpoint (`tokensPerWeek`), the total voting power is recorded at each week boundary
(`veSupply`), and a claim pays an NFT its share of every finished week since its last claim.

The functions follow the source one by one; the vote escrow is the model of `Ve`, the reward token a standard ERC20.
`System` is both contracts with the token, under any interleaving of their calls. Its `paid` is a ghost: the portions
that claims have paid so far, week by week, which no function reads.
-/
import SimContracts.Ve.Model

namespace SimContracts.VeDistributor

open Solidity Ve

/-! ## State -/

/-- length of the arrays indexed by week -/
def WEEKS_SIZE : ℕ := 1000000000000000

structure Dist where
  activePeriod : ℕ
  tokensPerWeek : ℕ → ℕ
  veSupply : ℕ → ℕ
  timeCursor : ℕ
  tokenLastBalance : ℕ
  lastTokenTime : ℕ
  startTime : ℕ
  timeCursorOf : ℕ → ℕ
  userEpochOf : ℕ → ℕ

/-- the state `init` leaves -/
def init (now : ℕ) : Dist where
  activePeriod := 0
  tokensPerWeek := fun _ => 0
  veSupply := fun _ => 0
  timeCursor := now / WEEK * WEEK
  tokenLastBalance := 0
  lastTokenTime := now / WEEK * WEEK
  startTime := now / WEEK * WEEK
  timeCursorOf := fun _ => 0
  userEpochOf := fun _ => 0

/-! ## Token checkpoint -/

/-- adjust value based on time since last update -/
def adjustToDistribute (toDistribute t0 t1 sinceLast : ℕ) : Res ℕ :=
  if t0 ≤ t1 ∨ t0 - t1 = 0 ∨ sinceLast = 0 then .ok toDistribute
  else do udiv (← umul toDistribute (t0 - t1)) sinceLast

/-- `tokensPerWeek[week] += amount` -/
def addTokens (tokensPerWeek : ℕ → ℕ) (week amount : ℕ) : Res (ℕ → ℕ) := do
  inBounds week WEEKS_SIZE
  let tokens ← uadd (tokensPerWeek week) amount
  pure (Function.update tokensPerWeek week tokens)

/-- the loop of `_checkpointToken`, from the time `t` in `thisWeek` on -/
def spreadTokens (now toDistribute sinceLast : ℕ) : ℕ → ℕ → ℕ → (ℕ → ℕ) → Res (ℕ → ℕ)
  | 0, _, _, tokensPerWeek => .ok tokensPerWeek
  | rounds + 1, t, thisWeek, tokensPerWeek => do
    let nextWeek ← uadd thisWeek WEEK
    if now < nextWeek then
      let amount ← adjustToDistribute toDistribute now t sinceLast
      addTokens tokensPerWeek thisWeek amount
    else
      let amount ← adjustToDistribute toDistribute nextWeek t sinceLast
      let tokensPerWeek ← addTokens tokensPerWeek thisWeek amount
      spreadTokens now toDistribute sinceLast rounds nextWeek nextWeek tokensPerWeek

def checkpointToken (d : Dist) (now tokenBalance : ℕ) : Res Dist := do
  let toDistribute ← usub tokenBalance d.tokenLastBalance
  let t := d.lastTokenTime
  let sinceLast ← usub now t
  let tokensPerWeek ← spreadTokens now toDistribute sinceLast 20 t (t / WEEK * WEEK) d.tokensPerWeek
  pure { d with tokenLastBalance := tokenBalance, lastTokenTime := now, tokensPerWeek }

/-! ## Supply checkpoint -/

/-- last epoch of the global history not after the time -/
def findTimestampEpoch (ve : Ve.State) (timestamp : ℕ) : ℕ :=
  Search.searchLast (fun i => (ve.pointHistory i).ts) timestamp 2 128 0 ve.epoch

/-- last epoch of an NFT's history not after the time -/
def findTimestampUserEpoch (ve : Ve.State) (id timestamp maxUserEpoch : ℕ) : ℕ :=
  Search.searchLast (fun i => (ve.userPointHistory id i).ts) timestamp 2 128 0 maxUserEpoch

/-- power of an NFT at a time, from its history -/
def veForAt (ve : Ve.State) (id timestamp : ℕ) : Res ℕ := do
  let pt := ve.userPointHistory id (findTimestampUserEpoch ve id timestamp (ve.userPointEpoch id))
  let dt ← usub timestamp pt.ts
  let decay ← i128 (pt.slope * asInt128 dt)
  let bias ← i128 (pt.bias - decay)
  pure (positiveInt128 bias).toNat

/-- ve supply at `t` from the bias and slope of a point -/
def adjustVeSupply (t ptTs : ℕ) (ptBias ptSlope : ℤ) : Res ℕ :=
  if t < ptTs then .ok 0
  else do
    let dt := asInt128 (t - ptTs : ℕ)
    let decay ← i128 (ptSlope * dt)
    if ptBias < decay then pure 0
    else
      let bias ← i128 (ptBias - decay)
      pure (positiveInt128 bias).toNat

/-- the loop of `_checkpointTotalSupply`: the supply at each boundary from `t` to the block, and the next boundary -/
def recordSupply (ve : Ve.State) (roundedTimestamp : ℕ) : ℕ → ℕ → (ℕ → ℕ) → Res ((ℕ → ℕ) × ℕ)
  | 0, t, veSupply => .ok (veSupply, t)
  | rounds + 1, t, veSupply =>
    if roundedTimestamp < t then .ok (veSupply, t)
    else do
      let pt := ve.pointHistory (findTimestampEpoch ve t)
      let supply ← adjustVeSupply t pt.ts pt.bias pt.slope
      inBounds t WEEKS_SIZE
      let t' ← uadd t WEEK
      recordSupply ve roundedTimestamp rounds t' (Function.update veSupply t supply)

/-- call ve checkpoint and write `veSupply` up to the block -/
def checkpointTotalSupply (d : Dist) (ve : Ve.State) (env : Env) : Res (Dist × Ve.State) := do
  let ve ← Ve.checkpoint ve env
  let (veSupply, timeCursor) ← recordSupply ve (env.timestamp / WEEK * WEEK) 20 d.timeCursor d.veSupply
  pure ({ d with veSupply, timeCursor }, ve)

/-- the distributor's `checkpoint`: only in a new week -/
def checkpoint (d : Dist) (ve : Ve.State) (env : Env) (tokenBalance : ℕ) : Res (Dist × Ve.State) := do
  let nextPeriod ← uadd d.activePeriod WEEK
  if nextPeriod ≤ env.timestamp then
    let d := { d with activePeriod := env.timestamp / WEEK * WEEK }
    let d ← checkpointToken d env.timestamp tokenBalance
    checkpointTotalSupply d ve env
  else pure (d, ve)

/-! ## Claims -/

/-- what a claim pays an NFT for one week, with the power it is paid for -/
structure Portion where
  id : ℕ
  week : ℕ
  power : ℕ
  amount : ℕ
deriving DecidableEq, Repr

/-- `portions` is a ghost: the weeks that make up `toDistribute` -/
structure ClaimCalculationResult where
  toDistribute : ℕ
  userEpoch : ℕ
  weekCursor : ℕ
  maxUserEpoch : ℕ
  success : Bool
  portions : List Portion

/-- the loop variables of `calculateToDistribute` -/
structure ClaimLoop where
  weekCursor : ℕ
  userPoint : Point
  oldUserPoint : Point
  userEpoch : ℕ
  toDistribute : ℕ
  portions : List Portion

/-- power of the point at a week boundary -/
def powerAt (point : Point) (week : ℕ) : Res ℕ := do
  let dt ← usub week point.ts
  let decay ← i128 (asInt128 dt * point.slope)
  let bias ← i128 (point.bias - decay)
  pure (positiveInt128 bias).toNat

/-- pay one week for the power it has -/
def payWeek (d : Dist) (id power : ℕ) (c : ClaimLoop) : Res ClaimLoop := do
  inBounds c.weekCursor WEEKS_SIZE
  let amount ← udiv (← umul power (d.tokensPerWeek c.weekCursor)) (d.veSupply c.weekCursor)
  let toDistribute ← uadd c.toDistribute amount
  let weekCursor ← uadd c.weekCursor WEEK
  pure { c with weekCursor, toDistribute, portions := c.portions ++ [⟨id, c.weekCursor, power, amount⟩] }

/-- the next user point becomes the current one; past the last one there is none -/
def nextUserPoint (ve : Ve.State) (id maxUserEpoch : ℕ) (c : ClaimLoop) : ClaimLoop :=
  { c with
    userEpoch := c.userEpoch + 1
    oldUserPoint := c.userPoint
    userPoint :=
      if maxUserEpoch < c.userEpoch + 1 then ⟨0, 0, 0, 0⟩ else ve.userPointHistory id (c.userEpoch + 1) }

def claimWeeks (d : Dist) (ve : Ve.State) (id lastTokenTime maxUserEpoch : ℕ) : ℕ → ClaimLoop → Res ClaimLoop
  | 0, c => .ok c
  | rounds + 1, c =>
    if lastTokenTime ≤ c.weekCursor then .ok c
    else if c.userPoint.ts ≤ c.weekCursor ∧ c.userEpoch ≤ maxUserEpoch then
      claimWeeks d ve id lastTokenTime maxUserEpoch rounds (nextUserPoint ve id maxUserEpoch c)
    else do
      let power ← powerAt c.oldUserPoint c.weekCursor
      if power = 0 ∧ maxUserEpoch < c.userEpoch then pure c
      else
        let c ← payWeek d id power c
        claimWeeks d ve id lastTokenTime maxUserEpoch rounds c

def calculateToDistribute (d : Dist) (ve : Ve.State) (id weekCursor lastTokenTime : ℕ) (userPoint : Point)
    (userEpoch maxUserEpoch : ℕ) : Res ClaimCalculationResult := do
  let c ← claimWeeks d ve id lastTokenTime maxUserEpoch 50
    { weekCursor, userPoint, oldUserPoint := ⟨0, 0, 0, 0⟩, userEpoch, toDistribute := 0, portions := [] }
  let lastEpoch ← usub c.userEpoch 1
  pure
    { toDistribute := c.toDistribute, userEpoch := min maxUserEpoch lastEpoch, weekCursor := c.weekCursor,
      maxUserEpoch, success := true, portions := c.portions }

/-- nothing to claim -/
def noClaim : ClaimCalculationResult := ⟨0, 0, 0, 0, false, []⟩

/-- the user epoch a claim starts from: found by the start time on the first claim, at least 1 -/
def firstUserEpoch (d : Dist) (ve : Ve.State) (id : ℕ) : ℕ :=
  let userEpoch :=
    if d.timeCursorOf id = 0 then findTimestampUserEpoch ve id d.startTime (ve.userPointEpoch id)
    else d.userEpochOf id
  if userEpoch = 0 then 1 else userEpoch

/-- the week a claim starts from: the first boundary of the user point on the first claim -/
def firstWeekCursor (d : Dist) (id : ℕ) (userPoint : Point) : ℕ :=
  if d.timeCursorOf id = 0 then (userPoint.ts + WEEK - 1) / WEEK * WEEK else d.timeCursorOf id

def calculateClaim (d : Dist) (ve : Ve.State) (id lastTokenTime : ℕ) : Res ClaimCalculationResult :=
  let maxUserEpoch := ve.userPointEpoch id
  if maxUserEpoch = 0 then .ok noClaim
  else
    let userEpoch := firstUserEpoch d ve id
    let userPoint := ve.userPointHistory id userEpoch
    let weekCursor := firstWeekCursor d id userPoint
    if d.lastTokenTime ≤ weekCursor then .ok noClaim
    else calculateToDistribute d ve id (max weekCursor d.startTime) lastTokenTime userPoint userEpoch maxUserEpoch

/-- `_claim` -/
def claimOne (d : Dist) (ve : Ve.State) (id lastTokenTime : ℕ) : Res (Dist × ClaimCalculationResult) := do
  let result ← calculateClaim d ve id lastTokenTime
  if result.success then
    pure ({ d with
      userEpochOf := Function.update d.userEpochOf id result.userEpoch
      timeCursorOf := Function.update d.timeCursorOf id result.weekCursor }, result)
  else pure (d, result)

/-- `claimable`, a view -/
def claimable (d : Dist) (ve : Ve.State) (id : ℕ) : Res ℕ := do
  let result ← calculateClaim d ve id (d.lastTokenTime / WEEK * WEEK)
  pure result.toDistribute

/-! ## Both contracts and the reward token -/

structure System where
  ve : Ve.State
  dist : Dist
  rewardToken : ERC20
  /-- ghost: all portions paid so far -/
  paid : List Portion

/-- pay the owner of an NFT; nothing for an amount of 0 -/
def payOwner (self : Address) (s : System) (id amount : ℕ) : Res System :=
  if amount ≠ 0 then do
    let rewardToken ← s.rewardToken.transfer self (s.ve.idToOwner id) amount
    pure { s with rewardToken }
  else .ok s

/-- the supply is checkpointed first when a boundary has passed since the last time -/
def checkpointIfDue (s : System) (env : Env) : Res System :=
  if s.dist.timeCursor ≤ env.timestamp then do
    let (dist, ve) ← checkpointTotalSupply s.dist s.ve env
    pure { s with dist, ve }
  else .ok s

/-- one NFT of a claim: its weeks are paid to its owner -/
def claimAndPay (self : Address) (s : System) (id lastTokenTime : ℕ) : Res (System × ℕ) := do
  let (dist, result) ← claimOne s.dist s.ve id lastTokenTime
  let s ← payOwner self { s with dist, paid := s.paid ++ result.portions } id result.toDistribute
  pure (s, result.toDistribute)

def lowerLastBalance (s : System) (amount : ℕ) : Res System := do
  let tokenLastBalance ← usub s.dist.tokenLastBalance amount
  pure { s with dist := { s.dist with tokenLastBalance } }

def claim (self : Address) (s : System) (env : Env) (id : ℕ) : Res System := do
  let s ← checkpointIfDue s env
  let (s, amount) ← claimAndPay self s id (s.dist.lastTokenTime / WEEK * WEEK)
  if amount ≠ 0 then lowerLastBalance s amount else pure s

/-- the loop of `claimMany`, with the running total; id 0 ends it -/
def claimEach (self : Address) (lastTokenTime : ℕ) : List ℕ → System → ℕ → Res (System × ℕ)
  | [], s, total => .ok (s, total)
  | id :: ids, s, total =>
    if id = 0 then .ok (s, total)
    else do
      let (s, amount) ← claimAndPay self s id lastTokenTime
      let total ← uadd total amount
      claimEach self lastTokenTime ids s total

def claimMany (self : Address) (s : System) (env : Env) (ids : List ℕ) : Res System := do
  let s ← checkpointIfDue s env
  let (s, total) ← claimEach self (s.dist.lastTokenTime / WEEK * WEEK) ids s 0
  if total ≠ 0 then lowerLastBalance s total else pure s

inductive Call where
  | ve (call : Ve.Call)
  | checkpoint
  | checkpointTotalSupply
  | claim (id : ℕ)
  | claimMany (ids : List ℕ)
  /-- reward tokens arriving at the distributor -/
  | fund (src : Address) (amount : ℕ)

def exec (cfg : Config) (self : Address) (s : System) (c : Env × Call) : Res System :=
  let env := c.1
  match c.2 with
  | .ve call => do
    let ve ← Ve.exec cfg s.ve env call
    pure { s with ve }
  | .checkpoint => do
    let (dist, ve) ← checkpoint s.dist s.ve env (s.rewardToken.balanceOf self)
    pure { s with dist, ve }
  | .checkpointTotalSupply => do
    let (dist, ve) ← checkpointTotalSupply s.dist s.ve env
    pure { s with dist, ve }
  | .claim id => claim self s env id
  | .claimMany ids => claimMany self s env ids
  | .fund src amount => do
    let rewardToken ← s.rewardToken.transfer src self amount
    pure { s with rewardToken }

end SimContracts.VeDistributor
