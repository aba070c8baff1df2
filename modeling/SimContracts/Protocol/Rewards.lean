/-
Pending rewards against the Default Pool.

The two running sums are two instances of `Accrual`, over the same stakes: `rewards .WSTETH` and `rewards .SIMDebt`. All
that is pending of either is covered by the Default Pool as long as no stake is raised while its trove is owed something.
Every function that sets a stake applies the pending rewards before, so this should not happen; but `hasPendingRewards`
looks at the collateral snapshot alone. A redistribution can be so small that it raises `L_SIMDebt` and leaves `L_WSTETH`
as it is: then a debt reward is pending that is not applied, and a larger stake makes it larger
(`pendingReward_exceeds_pool`). Collateral rewards are always covered.
-/
import SimContracts.Core.Accrual
import SimContracts.Protocol.Registry

namespace SimContracts.Protocol

open Solidity TroveManager BorrowerOperations

variable {c : Config} {s s' s₀ : System} {a b : Address}

/-! ## The two accruals -/

/-- what is redistributed -/
inductive Asset where
  | WSTETH
  | SIMDebt
deriving DecidableEq

def RewardSnapshot.of (x : RewardSnapshot) : Asset → ℕ
  | .WSTETH => x.WSTETH
  | .SIMDebt => x.SIMDebt

def DebtPool.of (x : DebtPool) : Asset → ℕ
  | .WSTETH => x.WSTETH
  | .SIMDebt => x.SIMDebt

/-- `L_WSTETH` or `L_SIMDebt` -/
def TroveManager.L (tm : TroveManager) : Asset → ℕ
  | .WSTETH => tm.L_WSTETH
  | .SIMDebt => tm.L_SIMDebt

/-- the carried rounding error -/
def TroveManager.lastError (tm : TroveManager) : Asset → ℕ
  | .WSTETH => tm.lastWSTETHError_Redistribution
  | .SIMDebt => tm.lastSIMDebtError_Redistribution

/-- the rewards of one asset, paid from the Default Pool -/
def rewards (k : Asset) (s : System) : Accrual Address where
  stake a := (trove s a).stake
  snapshot a := (s.troveManager.rewardSnapshots a).of k
  perUnit := s.troveManager.L k
  error := s.troveManager.lastError k
  pool := s.defaultPool.of k

def getPendingReward (k : Asset) (s : System) (a : Address) : Res ℕ :=
  match k with
  | .WSTETH => getPendingWSTETHReward s a
  | .SIMDebt => getPendingSIMDebtReward s a

theorem getPendingReward_ok {k : Asset} {p : ℕ} (h : getPendingReward k s a = .ok p) :
    p = if (trove s a).status = .active then (rewards k s).owed a / DECIMAL_PRECISION else 0 := by
  cases k with
  | WSTETH => exact (pendingReward_ok h).2
  | SIMDebt => exact (pendingReward_ok h).2

/-- a payment takes no more than what is owed -/
theorem getPendingReward_mul_le {k : Asset} {p : ℕ} (h : getPendingReward k s a = .ok p) :
    p * DECIMAL_PRECISION ≤ (rewards k s).owed a := by
  rw [getPendingReward_ok h]
  split_ifs
  · exact Nat.div_mul_le_self _ _
  · simp

/-- the two sums are covered -/
def RewardsBacked (k : Asset) (s : System) : Prop := (rewards k s).Backed DECIMAL_PRECISION

/-- what the rewards depend on is the same -/
theorem RewardsBacked.congr {k : Asset} (h : RewardsBacked k s) (hrewards : rewards k s' = rewards k s) :
    RewardsBacked k s' := by
  rw [RewardsBacked, hrewards]
  exact h

/-! ## One move -/

/-- no reward of `b` is left out when its stake is set for a collateral of `coll`: its rewards are applied, or it has no
debt reward, or its stake does not grow -/
def NoneHidden (s : System) (b : Address) (coll : ℕ) : Prop :=
  (trove s b).status = .active →
    hasPendingRewards s b = true ∨ (s.troveManager.rewardSnapshots b).SIMDebt = s.troveManager.L_SIMDebt ∨
      (computeNewStake s coll).shown ≤ (trove s b).stake

instance (s : System) (b : Address) (coll : ℕ) : Decidable (NoneHidden s b coll) :=
  inferInstanceAs (Decidable (_ → _ ∨ _ ∨ _))

theorem computeNewStake_congr (h : s'.troveManager.totalStakesSnapshot = s.troveManager.totalStakesSnapshot)
    (h' : s'.troveManager.totalCollateralSnapshot = s.troveManager.totalCollateralSnapshot) (coll : ℕ) :
    computeNewStake s' coll = computeNewStake s coll := by
  simp only [computeNewStake, h, h']

/-- a stake is set when its collateral rewards have been applied; its debt rewards too, unless they were hidden -/
theorem edit_owed {k : Asset} {coll stake : ℕ} (h : RewardsBacked k s) (harrived : Arrived s₀ s b)
    (hactive : (trove s b).status = .active) (hhidden : k = .SIMDebt → NoneHidden s₀ b coll)
    (hstake : computeNewStake s coll = .ok stake) :
    stake * (s.troveManager.L k - (s.troveManager.rewardSnapshots b).of k) ≤ (rewards k s).owed b := by
  have hle := h.snapshot_le b
  have hactive₀ : (trove s₀ b).status = .active := harrived.status ▸ hactive
  have hdone : s.troveManager.L k = (s.troveManager.rewardSnapshots b).of k →
      stake * (s.troveManager.L k - (s.troveManager.rewardSnapshots b).of k) ≤ (rewards k s).owed b := by
    intro e
    rw [e, Nat.sub_self, Nat.mul_zero]
    exact Nat.zero_le _
  by_cases hhas : hasPendingRewards s₀ b = true
  · refine hdone ?_
    rw [harrived.snapshot, if_pos hhas]
    cases k with
    | WSTETH => exact harrived.L_WSTETH
    | SIMDebt => exact harrived.L_SIMDebt
  have hsnap := harrived.snapshot
  rw [if_neg hhas] at hsnap
  cases k with
  | WSTETH =>
    -- nothing is pending, and a snapshot is never ahead
    refine hdone (le_antisymm ?_ hle)
    simp only [hasPendingRewards, hactive₀, true_and, decide_eq_true_eq, not_lt] at hhas
    rw [hsnap]
    exact harrived.L_WSTETH.trans_le hhas
  | SIMDebt =>
    rcases hhidden rfl hactive₀ with hp | hsame | hsmall
    · exact absurd hp hhas
    · refine hdone ?_
      rw [hsnap]
      exact harrived.L_SIMDebt.trans hsame.symm
    · rw [← computeNewStake_congr harrived.totalStakesSnapshot harrived.totalCollateralSnapshot, hstake, ← harrived.stake] at hsmall
      exact Nat.mul_le_mul_right _ hsmall

/-- `paid` moves out of the Default Pool -/
theorem TroveManager.Moved.pool {SIM WSTETH : ℕ} (h : Moved c s s' SIM WSTETH) (k : Asset) :
    (rewards k s').pool = (rewards k s).pool - (DebtPool.mk WSTETH SIM).of k := by
  obtain ⟨t, -, rfl⟩ := h.state
  cases k <;> rfl

/-- the rewards of `b` are applied -/
theorem RewardsBacked.settle {k : Asset} {pw pd : ℕ} (h : RewardsBacked k s)
    (hpw : getPendingWSTETHReward s b = .ok pw) (hpd : getPendingSIMDebtReward s b = .ok pd)
    (hmoved : Moved c { s with troveManager := settledManager s.troveManager b pw pd } s' pd pw) : RewardsBacked k s' := by
  have hp : getPendingReward k s b = .ok ((DebtPool.mk pw pd).of k) := by
    cases k with
    | WSTETH => exact hpw
    | SIMDebt => exact hpd
  have hpool := hmoved.pool k
  have htm : s'.troveManager = settledManager s.troveManager b pw pd := hmoved.same.1
  have hsnap : (rewards k s').snapshot b = (rewards k s').perUnit := by
    simp only [rewards, htm, settledManager, Function.update_self]
    cases k <;> rfl
  refine h.replace (b := b) (fun a ha => ?_) hsnap.le ?_ ?_ hpool ?_
  · simp only [rewards, trove, htm, settledManager, Function.update_of_ne ha, and_self]
  · simp only [rewards, htm, settledManager]
    cases k <;> rfl
  · simp only [rewards, htm, settledManager]
    cases k <;> rfl
  · rw [Accrual.owed, hsnap, Nat.sub_self, Nat.mul_zero, Nat.zero_add]
    exact getPendingReward_mul_le hp

/-- the stake of `b` changes; what it is owed does not grow -/
theorem RewardsBacked.edited {k : Asset} {coll debt : ℕ} (h : RewardsBacked k s) (he : Edited s s' b coll debt)
    (hle : ∀ stake, computeNewStake s coll = .ok stake →
      stake * (s.troveManager.L k - (s.troveManager.rewardSnapshots b).of k) ≤ (rewards k s).owed b) :
    RewardsBacked k s' := by
  obtain ⟨stake, hstake, -, htm⟩ := he.stake
  have hpool : (rewards k s').pool = (rewards k s).pool - 0 := by rw [rewards, he.rest]; rfl
  have hL : (rewards k s').perUnit = (rewards k s).perUnit := by rw [rewards, htm]; cases k <;> rfl
  have herror : (rewards k s').error = (rewards k s).error := by rw [rewards, htm]; cases k <;> rfl
  have hsnap : (rewards k s').snapshot = (rewards k s).snapshot := by rw [rewards, htm]; rfl
  have hself : (rewards k s').stake b = stake := by simp [rewards, trove, htm]
  refine h.replace (b := b) (fun a ha => ⟨?_, by rw [hsnap]⟩) ?_ hL herror hpool ?_
  · simp only [rewards, trove, htm, Function.update_of_ne ha]
  · rw [hsnap, hL]
    exact h.snapshot_le b
  · rw [Nat.zero_mul, Nat.add_zero, Accrual.owed, hself, hL, hsnap]
    exact hle stake hstake

/-- the stake of a new trove counts from its own snapshot on -/
theorem RewardsBacked.created {k : Asset} {coll debt NICR : ℕ} (h : RewardsBacked k s)
    (hc : Created s s' b coll debt NICR) : RewardsBacked k s' := by
  obtain ⟨stake, -, -, htm⟩ := hc.stake
  have hpool : (rewards k s').pool = (rewards k s).pool - 0 := by rw [rewards, hc.rest]; rfl
  have hL : (rewards k s').perUnit = (rewards k s).perUnit := by rw [rewards, htm]; cases k <;> rfl
  have herror : (rewards k s').error = (rewards k s).error := by rw [rewards, htm]; cases k <;> rfl
  have hsnap : (rewards k s').snapshot b = (rewards k s').perUnit := by
    simp only [rewards, htm, createdManager, Function.update_self]
    cases k <;> rfl
  refine h.replace (b := b) (fun a ha => ?_) hsnap.le hL herror hpool ?_
  · simp only [rewards, trove, htm, createdManager, Function.update_of_ne ha, and_self]
  · rw [Accrual.owed, hsnap, Nat.sub_self, Nat.mul_zero, Nat.zero_mul]
    exact Nat.zero_le _

/-- a closed trove is owed nothing; `paid` went to the Active Pool before -/
theorem RewardsBacked.closed {k : Asset} {status : Status} {paid : ℕ} (h : RewardsBacked k s)
    (htm : s'.troveManager = closedManager s.troveManager b status)
    (hpool : (rewards k s').pool = (rewards k s).pool - paid) (hpaid : paid * DECIMAL_PRECISION ≤ (rewards k s).owed b) :
    RewardsBacked k s' := by
  have hL : (rewards k s').perUnit = (rewards k s).perUnit := by rw [rewards, htm]; cases k <;> rfl
  have herror : (rewards k s').error = (rewards k s).error := by rw [rewards, htm]; cases k <;> rfl
  have hsnap : (rewards k s').snapshot b = 0 := by
    simp only [rewards, htm, closedManager, Function.update_self]
    cases k <;> rfl
  have hself : (rewards k s').stake b = 0 := by
    obtain ⟨i, hi⟩ := closedManager_self s.troveManager b status
    simp only [rewards, trove, htm, hi]
  refine h.replace (b := b) (fun a ha => ⟨?_, ?_⟩) (by rw [hsnap]; exact Nat.zero_le _) hL herror hpool ?_
  · obtain ⟨i, hi⟩ := closedManager_Troves s.troveManager b status ha
    simp only [rewards, trove, htm, hi]
  · simp only [rewards, htm, closedManager, Function.update_of_ne ha]
  · rw [Accrual.owed, hself, Nat.zero_mul, Nat.zero_add]
    exact hpaid

/-- a redistribution adds to the pool what it adds to the rewards, and the error is carried on -/
theorem RewardsBacked.redistributed {k : Asset} {debt coll : ℕ} (h : RewardsBacked k s) (hreg : Registry s)
    (hred : Redistributed c s s' debt coll) : RewardsBacked k s' := by
  obtain ⟨rw, ew, rd, ed, u, hw, hd, -, rfl⟩ := hred.state
  cases k with
  | WSTETH => exact h.accrue hreg.totalStakes (perUnitStaked_ok hw).2.2 rfl rfl rfl rfl rfl
  | SIMDebt => exact h.accrue hreg.totalStakes (perUnitStaked_ok hd).2.2 rfl rfl rfl rfl rfl

/-- every kind of move keeps the rewards covered -/
theorem move_backed {k : Asset} {plan : Plan}
    (hhidden : k = .SIMDebt → ∀ b coll, plan.stake = some (b, coll) → NoneHidden s₀ b coll)
    (hreg : Registry s) (h : RewardsBacked k s) (hm : Move c s₀ plan s s') : RewardsBacked k s' := by
  cases hm with
  | frame hf =>
    obtain ⟨r, t, ht⟩ := hf.troveManager
    refine h.congr ?_
    simp only [rewards, trove, ht, hf.defaultPool]
    cases k <;> rfl
  | settle b pw pd hhas hpw hpd hmoved => exact h.settle hpw hpd hmoved
  | edit b coll debt hplan harrived hdebt he =>
    have hactive := hreg.active_of_edited he
    exact h.edited he fun stake hstake => edit_owed h harrived hactive (fun hk => hhidden hk b coll hplan) hstake
  | create b coll debt NICR hplan hstart hnew hdebt hNICR hc => exact h.created hc
  | close b status hc =>
    have hpool : (rewards k s').pool = (rewards k s).pool - 0 := by rw [rewards, hc.rest]; rfl
    exact h.closed hc.troveManager hpool (by rw [Nat.zero_mul]; exact Nat.zero_le _)
  | @liquidate s₁ _ b t ht hmoved hc =>
    obtain ⟨hpd, hpw, -, -⟩ := getEntireDebtAndColl_ok ht
    have hp : getPendingReward k s b = .ok ((DebtPool.mk t.pendingWSTETHReward t.pendingSIMDebtReward).of k) := by
      cases k with
      | WSTETH => exact hpw
      | SIMDebt => exact hpd
    have hpool : (rewards k s').pool = (rewards k s₁).pool := by rw [rewards, hc.rest]; rfl
    refine h.closed (hc.troveManager.trans (by rw [hmoved.same.1])) (hpool.trans (hmoved.pool k)) ?_
    exact getPendingReward_mul_le hp
  | redistribute coll hpos hred => exact h.redistributed hreg hred
  | snapshot coll hopen hs =>
    obtain ⟨-, rfl⟩ := updateSystemSnapshots_ok hs
    exact h.congr rfl

/-! ## Runs -/

/-- no transaction raises a stake whose trove has a debt reward that `hasPendingRewards` does not report -/
def NoHiddenReward (c : Config) (s : System) (tx : Tx c) : Prop :=
  ∀ x ∈ (plan c s tx).stake, NoneHidden s x.1 x.2

instance (c : Config) (s : System) (tx : Tx c) : Decidable (NoHiddenReward c s tx) :=
  inferInstanceAs (Decidable (∀ x ∈ (plan c s tx).stake, NoneHidden s x.1 x.2))

theorem exec_backed {k : Asset} {tx : Tx c} (hhidden : k = .SIMDebt → NoHiddenReward c s tx)
    (h : Registry s ∧ RewardsBacked k s) (hexec : exec c s tx = .ok s') : Registry s' ∧ RewardsBacked k s' :=
  exec_keeps (fun _ _ => move_backed fun hk b coll hplan => hhidden hk (b, coll) hplan) h hexec

theorem init_backed (c : Config) (k : Asset) : RewardsBacked k (init c) := by
  refine ⟨fun a => ?_, ?_⟩
  · cases k <;> exact le_rfl
  · cases k <;> simp [rewards, Accrual.owed, trove, init, TroveManager.lastError]

/-- the rewards of all active troves together -/
theorem RewardsBacked.sum_le {k : Asset} (h : RewardsBacked k s) :
    ∑ a with (trove s a).status = .active, (getPendingReward k s a).shown ≤ s.defaultPool.of k := by
  refine le_trans ?_ (Accrual.Backed.sum_le h (by decide))
  refine (Finset.sum_le_sum fun a _ => ?_).trans (Finset.sum_le_sum_of_subset (Finset.filter_subset _ _))
  cases hp : getPendingReward k s a with
  | error e => exact Nat.zero_le _
  | ok p =>
    rw [Res.shown, getPendingReward_ok hp]
    split_ifs
    · exact le_rfl
    · exact Nat.zero_le _

/-- every single reward can be paid -/
theorem RewardsBacked.le_pool {k : Asset} {p : ℕ} (h : RewardsBacked k s) (hp : getPendingReward k s a = .ok p) :
    p ≤ s.defaultPool.of k := by
  rw [getPendingReward_ok hp]
  split_ifs
  · exact Accrual.Backed.le_pool h (by decide) a
  · exact Nat.zero_le _

/-- collateral rewards are covered after any calls -/
theorem reached_backed_WSTETH (calls : List (Tx c)) : RewardsBacked .WSTETH (reached c calls) :=
  (run_inv (exec c) (I := fun s => Registry s ∧ RewardsBacked .WSTETH s) (P := fun _ _ => True)
    (fun _ _ _ h _ => exec_backed (fun hk => Asset.noConfusion hk) h) _ calls
    ⟨init_registry c, init_backed c .WSTETH⟩ (along_true (exec c) _ calls)).2

theorem reached_backed_SIMDebt (calls : List (Tx c)) (h : AlongOk (exec c) (NoHiddenReward c) (init c) calls) :
    RewardsBacked .SIMDebt (reached c calls) :=
  (run_inv_ok (exec c) (I := fun s => Registry s ∧ RewardsBacked .SIMDebt s)
    (fun _ _ _ h hP => exec_backed (fun _ => hP) h) _ calls ⟨init_registry c, init_backed c .SIMDebt⟩ h).2

/-- **Pending rewards are backed by the Default Pool** in every run in which no successful call raises a stake over a hidden
debt reward: all active troves' rewards together are in the pool, so each of them can be moved to the Active Pool. -/
theorem pendingRewards_backed (c : Config) (calls : List (Tx c))
    (h : AlongOk (exec c) (NoHiddenReward c) (init c) calls) :
    let s := reached c calls
    ∑ a with (trove s a).status = .active, (getPendingSIMDebtReward s a).shown ≤ s.defaultPool.SIMDebt ∧
      ∑ a with (trove s a).status = .active, (getPendingWSTETHReward s a).shown ≤ s.defaultPool.WSTETH ∧
      ∀ a pd pw, getPendingSIMDebtReward s a = .ok pd → getPendingWSTETHReward s a = .ok pw →
        pd ≤ s.defaultPool.SIMDebt ∧ pw ≤ s.defaultPool.WSTETH := by
  intro s
  have hsim : RewardsBacked .SIMDebt s := reached_backed_SIMDebt calls h
  have hwsteth : RewardsBacked .WSTETH s := reached_backed_WSTETH calls
  exact ⟨hsim.sum_le, hwsteth.sum_le, fun a pd pw hpd hpw => ⟨hsim.le_pool hpd, hwsteth.le_pool hpw⟩⟩

/-- the two troves, and a Stability Pool that lacks 1000 wei of Alice's debt when she is liquidated at a price of 1000 -/
def dustRedistributed : List (Tx exampleConfig) :=
  twoTroves ++ [atPrice (2000 * 10 ^ 18) bob (.provideToSP (1005 * 10 ^ 15 - 1000)),
    atPrice (1000 * 10 ^ 18) alice (.liquidate 1)]

theorem pendingRewards_backed_dust :
    (reached exampleConfig dustRedistributed).defaultPool.SIMDebt = 1000 ∧
      getPendingSIMDebtReward (reached exampleConfig dustRedistributed) 2 = .ok 1000 ∧
      ∑ a with (trove (reached exampleConfig dustRedistributed) a).status = .active,
          (getPendingSIMDebtReward (reached exampleConfig dustRedistributed) a).shown ≤
        (reached exampleConfig dustRedistributed).defaultPool.SIMDebt :=
  ⟨by decide +kernel, by decide +kernel, (pendingRewards_backed exampleConfig dustRedistributed (by decide +kernel)).1⟩

/-- Bob adds collateral: his stake doubles, and so does the debt reward he is owed -/
def dustDoubled : List (Tx exampleConfig) :=
  dustRedistributed ++ [atPrice (1000 * 10 ^ 18) bob (.addColl (100 * 10 ^ 18) 0 0)]

/-- **A hidden debt reward outgrows the pool**: the Default Pool has 1000 wei of debt, Bob's reward alone is more. -/
theorem pendingReward_exceeds_pool :
    ¬ ∑ a with (trove (reached exampleConfig dustDoubled) a).status = .active,
        (getPendingSIMDebtReward (reached exampleConfig dustDoubled) a).shown ≤
      (reached exampleConfig dustDoubled).defaultPool.SIMDebt := by
  have hbob : (trove (reached exampleConfig dustDoubled) 2).status = .active := by decide +kernel
  have hmore : (reached exampleConfig dustDoubled).defaultPool.SIMDebt <
      (getPendingSIMDebtReward (reached exampleConfig dustDoubled) 2).shown := by decide +kernel
  refine Nat.not_le.2 (hmore.trans_le ?_)
  exact Finset.single_le_sum (f := fun a => (getPendingSIMDebtReward (reached exampleConfig dustDoubled) a).shown)
    (fun _ _ => Nat.zero_le _) (Finset.mem_filter.2 ⟨Finset.mem_univ _, hbob⟩)

end SimContracts.Protocol
