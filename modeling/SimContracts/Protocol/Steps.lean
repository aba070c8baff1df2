/-
What each function of the pools, the tokens and the trove manager leaves when it succeeds: the checks it passed and the
new state. Every later proof goes through these equations.
-/
import SimContracts.Protocol.Borrowing

namespace SimContracts.Protocol

open Solidity

variable {c : Config} {env : Env} {caller src dst account borrower : Address} {s s' : System} {amount : ℕ}

/-! ## Different addresses -/

theorem Config.pools_subset (c : Config) {a : Address} (h : a ∈ c.pools) : a ∈ c.contracts := by
  simp only [Config.pools, Config.contracts, List.mem_cons, List.not_mem_nil, or_false] at h ⊢
  tauto

/-- the address of a contract is that of no other one -/
theorem Config.ne (c : Config) :
    c.activePool ≠ c.defaultPool ∧ c.activePool ≠ c.stabilityPool ∧ c.activePool ≠ c.collSurplusPool ∧
      c.defaultPool ≠ c.stabilityPool ∧ c.defaultPool ≠ c.collSurplusPool ∧ c.stabilityPool ≠ c.collSurplusPool := by
  have h := c.distinct
  simp only [List.nodup_cons, List.mem_cons, List.not_mem_nil, not_or] at h
  tauto

/-- `BorrowerOperations` keeps no tracker -/
theorem Config.borrowerOperations_notMem (c : Config) : c.borrowerOperations ∉ c.pools := by
  have h := c.distinct
  simp only [Config.pools, List.nodup_cons, List.mem_cons, List.not_mem_nil, not_or] at h ⊢
  tauto

theorem Account.notMem_pools (a : Account c) : a.address ∉ c.pools := fun h => a.outside (c.pools_subset h)

/-! ## Tokens -/

theorem transferWSTETH_ok (h : transferWSTETH s src dst amount = .ok s') :
    ∃ t, s.wsteth.transfer src dst amount = .ok t ∧ s' = { s with wsteth := t } := by
  obtain ⟨t, ht, h⟩ := bind_ok.1 h
  cases h
  exact ⟨t, ht, rfl⟩

theorem transferFromWSTETH_ok (h : transferFromWSTETH s caller src dst amount = .ok s') :
    ∃ t, s.wsteth.transferFrom caller src dst amount = .ok t ∧ s' = { s with wsteth := t } := by
  obtain ⟨t, ht, h⟩ := bind_ok.1 h
  cases h
  exact ⟨t, ht, rfl⟩

namespace SIMToken

theorem mint_ok (h : mint c caller s account amount = .ok s') :
    ∃ t, s.sim.mint account amount = .ok t ∧ s' = { s with sim := t } := by
  simp only [mint, require_bind] at h
  obtain ⟨t, ht, h⟩ := bind_ok.1 h.2
  cases h
  exact ⟨t, ht, rfl⟩

theorem burn_ok (h : burn c caller s account amount = .ok s') :
    ∃ t, s.sim.burn account amount = .ok t ∧ s' = { s with sim := t } := by
  simp only [burn, require_bind] at h
  obtain ⟨t, ht, h⟩ := bind_ok.1 h.2
  cases h
  exact ⟨t, ht, rfl⟩

/-- nobody can send SIM to the Stability Pool directly -/
theorem transfer_ok (h : transfer c caller s dst amount = .ok s') :
    dst ≠ c.stabilityPool ∧ ∃ t, s.sim.transfer caller dst amount = .ok t ∧ s' = { s with sim := t } := by
  simp only [transfer, requireValidRecipient] at h
  obtain ⟨u, hu, h⟩ := bind_ok.1 h
  simp only [require_bind] at hu
  obtain ⟨t, ht, h⟩ := bind_ok.1 h
  cases h
  refine ⟨?_, t, ht, rfl⟩
  obtain ⟨-, hu⟩ := hu
  unfold require at hu
  split_ifs at hu with hr
  exact hr.1

theorem transferFrom_ok (h : transferFrom c caller s src dst amount = .ok s') :
    dst ≠ c.stabilityPool ∧ ∃ t, s.sim.transferFrom caller src dst amount = .ok t ∧ s' = { s with sim := t } := by
  simp only [transferFrom, requireValidRecipient] at h
  obtain ⟨u, hu, h⟩ := bind_ok.1 h
  simp only [require_bind] at hu
  obtain ⟨t, ht, h⟩ := bind_ok.1 h
  cases h
  refine ⟨?_, t, ht, rfl⟩
  obtain ⟨-, hu⟩ := hu
  unfold require at hu
  split_ifs at hu with hr
  exact hr.1

theorem sendToPool_ok (h : sendToPool c caller s src dst amount = .ok s') :
    ∃ t, s.sim.transfer src dst amount = .ok t ∧ s' = { s with sim := t } := by
  simp only [sendToPool, require_bind] at h
  obtain ⟨t, ht, h⟩ := bind_ok.1 h.2
  cases h
  exact ⟨t, ht, rfl⟩

theorem returnFromPool_ok (h : returnFromPool c caller s src dst amount = .ok s') :
    ∃ t, s.sim.transfer src dst amount = .ok t ∧ s' = { s with sim := t } := by
  simp only [returnFromPool, require_bind] at h
  obtain ⟨t, ht, h⟩ := bind_ok.1 h.2
  cases h
  exact ⟨t, ht, rfl⟩

end SIMToken

/-! ## Pools -/

namespace ActivePool

theorem increaseSIMDebt_ok (h : increaseSIMDebt c caller s amount = .ok s') :
    s' = { s with activePool := { s.activePool with SIMDebt := s.activePool.SIMDebt + amount } } := by
  simp only [increaseSIMDebt, require_bind, uadd_bind, pure_ok] at h
  exact h.2.2.symm

theorem decreaseSIMDebt_ok (h : decreaseSIMDebt c caller s amount = .ok s') : amount ≤ s.activePool.SIMDebt ∧
    s' = { s with activePool := { s.activePool with SIMDebt := s.activePool.SIMDebt - amount } } := by
  simp only [decreaseSIMDebt, requireCallerIsBOorTroveMorSP, require_bind, usub_bind, pure_ok] at h
  exact ⟨h.2.1, h.2.2.symm⟩

theorem receiveWSTETH_ok (h : receiveWSTETH c caller s amount = .ok s') :
    s' = { s with activePool := { s.activePool with WSTETH := s.activePool.WSTETH + amount } } := by
  simp only [receiveWSTETH, require_bind, uadd_bind, pure_ok] at h
  exact h.2.2.symm

/-- the receiving side of a transfer: the pool that got collateral adds it to its tracker -/
structure Notified (c : Config) (s s' : System) (account : Address) (amount : ℕ) : Prop where
  wsteth : s'.wsteth = s.wsteth
  sim : s'.sim = s.sim
  activePool : s'.activePool = s.activePool
  troveManager : s'.troveManager = s.troveManager
  sortedTroves : s'.sortedTroves = s.sortedTroves
  defaultPool : s'.defaultPool =
    { s.defaultPool with WSTETH := s.defaultPool.WSTETH + if account = c.defaultPool then amount else 0 }
  stabilityPool : s'.stabilityPool =
    { s.stabilityPool with WSTETH := s.stabilityPool.WSTETH + if account = c.stabilityPool then amount else 0 }
  collSurplusPool : s'.collSurplusPool =
    { s.collSurplusPool with WSTETH := s.collSurplusPool.WSTETH + if account = c.collSurplusPool then amount else 0 }

theorem notify_ok (h : notify c s account amount = .ok s') : Notified c s s' account amount := by
  obtain ⟨-, -, -, h1, h2, h3⟩ := c.ne
  unfold notify at h
  split_ifs at h with hd hs hc
  · simp only [DefaultPool.receiveWSTETH, require_bind, uadd_bind, pure_ok] at h
    obtain ⟨-, -, rfl⟩ := h
    subst hd
    exact ⟨rfl, rfl, rfl, rfl, rfl, by simp, by simp [h1], by simp [h2]⟩
  · simp only [stabilityPoolReceiveWSTETH, require_bind] at h
    obtain ⟨-, h⟩ := h
    obtain ⟨pool, hp, h⟩ := bind_ok.1 h
    cases h
    simp only [SimContracts.StabilityPool.receiveWSTETH, uadd_bind, pure_ok] at hp
    obtain ⟨-, rfl⟩ := hp
    subst hs
    exact ⟨rfl, rfl, rfl, rfl, rfl, by simp [hd], by simp, by simp [h3]⟩
  · simp only [CollSurplusPool.receiveWSTETH, require_bind, uadd_bind, pure_ok] at h
    obtain ⟨-, -, rfl⟩ := h
    subst hc
    exact ⟨rfl, rfl, rfl, rfl, rfl, by simp [hd], by simp [hs], by simp⟩
  · cases h
    exact ⟨rfl, rfl, rfl, rfl, rfl, by simp [hd], by simp [hs], by simp [hc]⟩

theorem sendWSTETH_ok (h : sendWSTETH c caller s account amount = .ok s') : amount ≤ s.activePool.WSTETH ∧
    ∃ t, s.wsteth.transfer c.activePool account amount = .ok t ∧
      Notified c
        { s with wsteth := t, activePool := { s.activePool with WSTETH := s.activePool.WSTETH - amount } } s' account
        amount := by
  simp only [sendWSTETH, requireCallerIsBOorTroveMorSP, require_bind, usub_bind] at h
  obtain ⟨-, hle, h⟩ := h
  obtain ⟨s₁, h1, h⟩ := bind_ok.1 h
  obtain ⟨t, ht, rfl⟩ := transferWSTETH_ok h1
  exact ⟨hle, t, ht, notify_ok h⟩

end ActivePool

namespace DefaultPool

theorem increaseSIMDebt_ok (h : increaseSIMDebt c caller s amount = .ok s') :
    s' = { s with defaultPool := { s.defaultPool with SIMDebt := s.defaultPool.SIMDebt + amount } } := by
  simp only [increaseSIMDebt, requireCallerIsTroveManager, require_bind, uadd_bind, pure_ok] at h
  exact h.2.2.symm

theorem decreaseSIMDebt_ok (h : decreaseSIMDebt c caller s amount = .ok s') : amount ≤ s.defaultPool.SIMDebt ∧
    s' = { s with defaultPool := { s.defaultPool with SIMDebt := s.defaultPool.SIMDebt - amount } } := by
  simp only [decreaseSIMDebt, requireCallerIsTroveManager, require_bind, usub_bind, pure_ok] at h
  exact ⟨h.2.1, h.2.2.symm⟩

theorem sendWSTETHToActivePool_ok (h : sendWSTETHToActivePool c caller s amount = .ok s') :
    amount ≤ s.defaultPool.WSTETH ∧ ∃ t, s.wsteth.transfer c.defaultPool c.activePool amount = .ok t ∧
      s' = { s with
        wsteth := t
        defaultPool := { s.defaultPool with WSTETH := s.defaultPool.WSTETH - amount }
        activePool := { s.activePool with WSTETH := s.activePool.WSTETH + amount } } := by
  simp only [sendWSTETHToActivePool, requireCallerIsTroveManager, require_bind, usub_bind] at h
  obtain ⟨-, hle, h⟩ := h
  obtain ⟨s₁, h1, h⟩ := bind_ok.1 h
  obtain ⟨t, ht, rfl⟩ := transferWSTETH_ok h1
  exact ⟨hle, t, ht, ActivePool.receiveWSTETH_ok h⟩

end DefaultPool

namespace CollSurplusPool

theorem accountSurplus_ok (h : accountSurplus c caller s account amount = .ok s') :
    s' = { s with
      collSurplusPool :=
        { s.collSurplusPool with
          balances := Function.update s.collSurplusPool.balances account (s.collSurplusPool.balances account + amount) } } := by
  simp only [accountSurplus, require_bind, uadd_bind, pure_ok] at h
  exact h.2.2.symm

theorem claimColl_ok (h : claimColl c caller s account = .ok s') :
    s.collSurplusPool.balances account ≤ s.collSurplusPool.WSTETH ∧
      ∃ t, s.wsteth.transfer c.collSurplusPool account (s.collSurplusPool.balances account) = .ok t ∧
        s' = { s with
          wsteth := t
          collSurplusPool :=
            { WSTETH := s.collSurplusPool.WSTETH - s.collSurplusPool.balances account
              balances := Function.update s.collSurplusPool.balances account 0 } } := by
  simp only [claimColl, require_bind, usub_bind] at h
  obtain ⟨-, -, hle, h⟩ := h
  obtain ⟨t, ht, rfl⟩ := transferWSTETH_ok h
  exact ⟨hle, t, ht, rfl⟩

end CollSurplusPool

/-! ## Pending rewards -/

namespace TroveManager

/-- the share of a stake in what was redistributed per unit since a snapshot -/
theorem pendingReward_ok {L snapshot reward : ℕ} {t : Trove} (h : pendingReward L snapshot t = .ok reward) :
    snapshot ≤ L ∧ reward = if t.status = .active then t.stake * (L - snapshot) / DECIMAL_PRECISION else 0 := by
  simp only [pendingReward, usub_bind] at h
  obtain ⟨hle, h⟩ := h
  refine ⟨hle, ?_⟩
  by_cases hactive : t.status = .active
  · rw [if_pos hactive]
    split_ifs at h with h0
    · cases h
      rw [h0.resolve_right (not_not.2 hactive), Nat.mul_zero, Nat.zero_div]
    · simp only [umul_bind, udiv_ok] at h
      exact h.2.2.symm
  · rw [if_pos (.inr hactive)] at h
    cases h
    rw [if_neg hactive]

theorem getEntireDebtAndColl_ok {t : EntireTrove} (h : getEntireDebtAndColl s borrower = .ok t) :
    getPendingSIMDebtReward s borrower = .ok t.pendingSIMDebtReward ∧
      getPendingWSTETHReward s borrower = .ok t.pendingWSTETHReward ∧
      t.debt = (trove s borrower).debt + t.pendingSIMDebtReward ∧
      t.coll = (trove s borrower).coll + t.pendingWSTETHReward := by
  obtain ⟨pd, hpd, h⟩ := bind_ok.1 h
  obtain ⟨pw, hpw, h⟩ := bind_ok.1 h
  simp only [uadd_bind, pure_ok] at h
  obtain ⟨-, -, rfl⟩ := h
  exact ⟨hpd, hpw, rfl, rfl⟩

theorem getCurrentTroveAmounts_ok {x : ℕ × ℕ} (h : getCurrentTroveAmounts s borrower = .ok x) :
    ∃ pw pd, getPendingWSTETHReward s borrower = .ok pw ∧ getPendingSIMDebtReward s borrower = .ok pd ∧
      x = ((trove s borrower).coll + pw, (trove s borrower).debt + pd) := by
  obtain ⟨pw, hpw, h⟩ := bind_ok.1 h
  obtain ⟨pd, hpd, h⟩ := bind_ok.1 h
  simp only [uadd_bind, pure_ok] at h
  exact ⟨pw, pd, hpw, hpd, h.2.2.symm⟩

/-- what moves from the Default Pool to the Active Pool -/
structure Moved (c : Config) (s s' : System) (SIM WSTETH : ℕ) : Prop where
  debt_le : SIM ≤ s.defaultPool.SIMDebt
  coll_le : WSTETH ≤ s.defaultPool.WSTETH
  state : ∃ t, s.wsteth.transfer c.defaultPool c.activePool WSTETH = .ok t ∧
    s' = { s with
      wsteth := t
      defaultPool := ⟨s.defaultPool.WSTETH - WSTETH, s.defaultPool.SIMDebt - SIM⟩
      activePool := ⟨s.activePool.WSTETH + WSTETH, s.activePool.SIMDebt + SIM⟩ }

theorem movePendingTroveRewardsToActivePool_ok {SIM WSTETH : ℕ}
    (h : movePendingTroveRewardsToActivePool c s SIM WSTETH = .ok s') : Moved c s s' SIM WSTETH := by
  obtain ⟨s₁, h1, h⟩ := bind_ok.1 h
  obtain ⟨s₂, h2, h⟩ := bind_ok.1 h
  obtain ⟨hle, rfl⟩ := DefaultPool.decreaseSIMDebt_ok h1
  obtain rfl := ActivePool.increaseSIMDebt_ok h2
  obtain ⟨hle', t, ht, rfl⟩ := DefaultPool.sendWSTETHToActivePool_ok h
  exact ⟨hle, hle', t, ht, rfl⟩

/-- a trove after its rewards were added, with a fresh snapshot -/
def settledManager (tm : Protocol.TroveManager) (borrower : Address) (pw pd : ℕ) : Protocol.TroveManager :=
  { tm with
    Troves := Function.update tm.Troves borrower
      { tm.Troves borrower with coll := (tm.Troves borrower).coll + pw, debt := (tm.Troves borrower).debt + pd }
    rewardSnapshots := Function.update tm.rewardSnapshots borrower ⟨tm.L_WSTETH, tm.L_SIMDebt⟩ }

/-- rewards are applied if the collateral snapshot is behind -/
theorem settlePendingRewards_ok (h : settlePendingRewards c s borrower = .ok s') :
    hasPendingRewards s borrower = false ∧ s' = s ∨
      hasPendingRewards s borrower = true ∧ ∃ pw pd, getPendingWSTETHReward s borrower = .ok pw ∧
        getPendingSIMDebtReward s borrower = .ok pd ∧
        Moved c { s with troveManager := settledManager s.troveManager borrower pw pd } s' pd pw := by
  unfold settlePendingRewards at h
  split_ifs at h with hhas
  · right
    simp only [requireTroveIsActive, require_bind] at h
    obtain ⟨-, h⟩ := h
    obtain ⟨pw, hpw, h⟩ := bind_ok.1 h
    obtain ⟨pd, hpd, h⟩ := bind_ok.1 h
    simp only [uadd_bind] at h
    obtain ⟨-, -, h⟩ := h
    exact ⟨hhas, pw, pd, hpw, hpd, movePendingTroveRewardsToActivePool_ok h⟩
  · cases h
    exact .inl ⟨by simpa using hhas, rfl⟩

/-! ## Stakes -/

theorem computeNewStake_ok {coll stake : ℕ} (h : computeNewStake s coll = .ok stake) :
    stake = if s.troveManager.totalCollateralSnapshot = 0 then coll
      else coll * s.troveManager.totalStakesSnapshot / s.troveManager.totalCollateralSnapshot := by
  unfold computeNewStake at h
  split_ifs at h ⊢
  · cases h
    rfl
  · simp only [assert_bind, umul_bind, udiv_ok] at h
    exact h.2.2.2.symm

/-- the stake of a trove is replaced in the trove and in the total -/
def stakedManager (tm : Protocol.TroveManager) (borrower : Address) (stake : ℕ) : Protocol.TroveManager :=
  { tm with
    Troves := Function.update tm.Troves borrower { tm.Troves borrower with stake }
    totalStakes := tm.totalStakes - (tm.Troves borrower).stake + stake }

theorem recomputeStake_ok (h : recomputeStake s borrower = .ok s') :
    ∃ stake, computeNewStake s (trove s borrower).coll = .ok stake ∧
      (trove s borrower).stake ≤ s.troveManager.totalStakes ∧
      s' = { s with troveManager := stakedManager s.troveManager borrower stake } := by
  obtain ⟨stake, hs, h⟩ := bind_ok.1 h
  simp only [usub_bind, uadd_bind, pure_ok] at h
  obtain ⟨hle, -, rfl⟩ := h
  exact ⟨stake, hs, hle, rfl⟩

theorem clearStake_ok (h : clearStake s borrower = .ok s') : (trove s borrower).stake ≤ s.troveManager.totalStakes ∧
    s' = { s with troveManager := stakedManager s.troveManager borrower 0 } := by
  simp only [clearStake, usub_bind, pure_ok] at h
  obtain ⟨hle, rfl⟩ := h
  exact ⟨hle, rfl⟩

/-! ## Closing -/

/-- what closing leaves: an empty trove, the last owner in its place, and the node out of the list -/
structure Shut (s s' : System) (borrower : Address) (status : Status) : Prop where
  length : 1 < s.troveManager.TroveOwners.length
  index : (trove s borrower).arrayIndex ≤ s.troveManager.TroveOwners.length - 1
  troveManager : s'.troveManager =
    let closed := Function.update s.troveManager.Troves borrower
      { trove s borrower with status, coll := 0, debt := 0 }
    let last := s.troveManager.TroveOwners.getD (s.troveManager.TroveOwners.length - 1) 0
    { s.troveManager with
      Troves := Function.update closed last { closed last with arrayIndex := (trove s borrower).arrayIndex }
      rewardSnapshots := Function.update s.troveManager.rewardSnapshots borrower ⟨0, 0⟩
      TroveOwners := (s.troveManager.TroveOwners.set (trove s borrower).arrayIndex last).dropLast }
  list : SortedTroves.remove s.sortedTroves borrower = .ok s'.sortedTroves
  size : 1 < s.sortedTroves.size
  closedStatus : status ≠ .nonExistent ∧ status ≠ .active
  rest : s' = { s with troveManager := s'.troveManager, sortedTroves := s'.sortedTroves }

theorem shutTrove_ok {status : Status} (h : shutTrove s borrower status = .ok s') : Shut s s' borrower status := by
  simp only [shutTrove, assert_bind, require_bind] at h
  obtain ⟨hstatus, hlen, h⟩ := h
  obtain ⟨s₁, h1, h⟩ := bind_ok.1 h
  obtain ⟨list, hlist, h⟩ := bind_ok.1 h
  cases h
  simp only [removeTroveOwner, assert_bind, usub_bind, inBounds_bind, pure_ok] at h1
  obtain ⟨-, -, hindex, -, rfl⟩ := h1
  have hself : ∀ t : Trove, Function.update s.troveManager.Troves borrower t borrower = t := fun t => Function.update_self _ _ _
  simp only [writeClosed, writeTrove, trove, hself] at hindex hlist ⊢
  exact ⟨hlen.1, hindex, rfl, hlist, hlen.2, hstatus, rfl⟩

/-! ## Redistribution -/

theorem perUnitStaked_ok {lastError totalStakes r e : ℕ} (h : perUnitStaked amount lastError totalStakes = .ok (r, e)) :
    0 < totalStakes ∧ r = (amount * DECIMAL_PRECISION + lastError) / totalStakes ∧
      r * totalStakes + e = amount * DECIMAL_PRECISION + lastError := by
  simp only [perUnitStaked, umul_bind, uadd_bind, udiv_bind, usub_bind, pure_ok, Prod.mk.injEq] at h
  obtain ⟨-, -, hpos, -, hle, rfl, rfl⟩ := h
  exact ⟨hpos, rfl, by omega⟩

/-- collateral and debt of closed troves become rewards of the others -/
structure Redistributed (c : Config) (s s' : System) (debt coll : ℕ) : Prop where
  debt_le : debt ≤ s.activePool.SIMDebt
  coll_le : coll ≤ s.activePool.WSTETH
  state : ∃ rw ew rd ed t,
    perUnitStaked coll s.troveManager.lastWSTETHError_Redistribution s.troveManager.totalStakes = .ok (rw, ew) ∧
    perUnitStaked debt s.troveManager.lastSIMDebtError_Redistribution s.troveManager.totalStakes = .ok (rd, ed) ∧
    s.wsteth.transfer c.activePool c.defaultPool coll = .ok t ∧
    s' = { s with
      wsteth := t
      activePool := ⟨s.activePool.WSTETH - coll, s.activePool.SIMDebt - debt⟩
      defaultPool := ⟨s.defaultPool.WSTETH + coll, s.defaultPool.SIMDebt + debt⟩
      troveManager :=
        { s.troveManager with
          L_WSTETH := s.troveManager.L_WSTETH + rw
          L_SIMDebt := s.troveManager.L_SIMDebt + rd
          lastWSTETHError_Redistribution := ew
          lastSIMDebtError_Redistribution := ed } }

theorem redistributeDebtAndColl_ok {debt coll : ℕ} (h : redistributeDebtAndColl c s debt coll = .ok s') :
    debt = 0 ∧ s' = s ∨ debt ≠ 0 ∧ Redistributed c s s' debt coll := by
  unfold redistributeDebtAndColl at h
  split_ifs at h with h0
  · cases h
    exact .inl ⟨h0, rfl⟩
  · right
    obtain ⟨s₁, h1, h⟩ := bind_ok.1 h
    obtain ⟨s₂, h2, h⟩ := bind_ok.1 h
    obtain ⟨s₃, h3, h⟩ := bind_ok.1 h
    obtain ⟨⟨rw, ew⟩, hw, h1⟩ := bind_ok.1 h1
    obtain ⟨⟨rd, ed⟩, hd, h1⟩ := bind_ok.1 h1
    simp only [uadd_bind, pure_ok] at h1
    obtain ⟨-, -, rfl⟩ := h1
    obtain ⟨hle, rfl⟩ := ActivePool.decreaseSIMDebt_ok h2
    obtain rfl := DefaultPool.increaseSIMDebt_ok h3
    obtain ⟨hle', t, ht, hn⟩ := ActivePool.sendWSTETH_ok h
    obtain ⟨h1, h2, h3, h4, h5, h6, h7, h8⟩ := hn
    refine ⟨h0, hle, hle', rw, ew, rd, ed, t, hw, hd, ht, ?_⟩
    obtain ⟨-, -, -, hds, hdc, -⟩ := c.ne
    simp only [if_neg hds, if_neg hdc, if_true, Nat.add_zero] at h6 h7 h8
    obtain ⟨wsteth, sim, activePool, defaultPool, collSurplusPool, stabilityPool, troveManager, sortedTroves⟩ := s'
    simp only at h1 h2 h3 h4 h5 h6 h7 h8
    subst h1 h2 h3 h4 h5 h6 h7 h8
    rfl

theorem updateSystemSnapshots_ok {coll : ℕ} (h : updateSystemSnapshots_excludeCollRemainder s coll = .ok s') :
    coll ≤ s.activePool.WSTETH ∧
      s' = { s with
        troveManager :=
          { s.troveManager with
            totalStakesSnapshot := s.troveManager.totalStakes
            totalCollateralSnapshot := s.activePool.WSTETH - coll + s.defaultPool.WSTETH } } := by
  simp only [updateSystemSnapshots_excludeCollRemainder, usub_bind, uadd_bind, pure_ok] at h
  exact ⟨h.1, h.2.2.symm⟩

/-! ## Base rate -/

theorem updateLastFeeOpTime_ok {timestamp : ℕ} (h : updateLastFeeOpTime s timestamp = .ok s') :
    ∃ t, s' = { s with troveManager := { s.troveManager with lastFeeOperationTime := t } } := by
  simp only [updateLastFeeOpTime, usub_bind] at h
  obtain ⟨-, h⟩ := h
  split_ifs at h
  · cases h
    exact ⟨timestamp, rfl⟩
  · cases h
    exact ⟨s.troveManager.lastFeeOperationTime, rfl⟩

theorem decayBaseRateFromBorrowing_ok {timestamp : ℕ} (h : decayBaseRateFromBorrowing c caller s timestamp = .ok s') :
    ∃ r t, s' = { s with troveManager := { s.troveManager with baseRate := r, lastFeeOperationTime := t } } := by
  simp only [decayBaseRateFromBorrowing, requireCallerIsBorrowerOperations, require_bind] at h
  obtain ⟨-, h⟩ := h
  obtain ⟨r, -, h⟩ := bind_ok.1 h
  simp only [assert_bind] at h
  obtain ⟨t, rfl⟩ := updateLastFeeOpTime_ok h.2
  exact ⟨r, t, rfl⟩

theorem updateBaseRateFromRedemption_ok {drawn price supply timestamp : ℕ}
    (h : updateBaseRateFromRedemption s drawn price supply timestamp = .ok s') :
    ∃ r t, s' = { s with troveManager := { s.troveManager with baseRate := r, lastFeeOperationTime := t } } := by
  obtain ⟨r, -, h⟩ := bind_ok.1 h
  simp only [umul_bind, udiv_bind, uadd_bind, assert_bind] at h
  obtain ⟨-, -, -, -, h⟩ := h
  obtain ⟨t, rfl⟩ := updateLastFeeOpTime_ok h
  exact ⟨_, t, rfl⟩

/-! ## The position of a trove -/

/-- what the ratio and the rewards of a trove depend on is the same in both states -/
structure SamePosition (s s' : System) (a : Address) : Prop where
  L_WSTETH : s'.troveManager.L_WSTETH = s.troveManager.L_WSTETH
  L_SIMDebt : s'.troveManager.L_SIMDebt = s.troveManager.L_SIMDebt
  snapshot : s'.troveManager.rewardSnapshots a = s.troveManager.rewardSnapshots a
  trove : ∃ i, s'.troveManager.Troves a = { s.troveManager.Troves a with arrayIndex := i }

namespace SamePosition

variable {a : Address} {s'' : System}

theorem refl (s : System) (a : Address) : SamePosition s s a := ⟨rfl, rfl, rfl, (s.troveManager.Troves a).arrayIndex, rfl⟩

theorem trans (h : SamePosition s s' a) (h' : SamePosition s' s'' a) : SamePosition s s'' a := by
  obtain ⟨i, hi⟩ := h.trove
  obtain ⟨j, hj⟩ := h'.trove
  refine ⟨h'.L_WSTETH.trans h.L_WSTETH, h'.L_SIMDebt.trans h.L_SIMDebt, h'.snapshot.trans h.snapshot, j, ?_⟩
  rw [hj, hi]

theorem of_eq (h : s'.troveManager = s.troveManager) : SamePosition s s' a := by
  refine ⟨?_, ?_, ?_, (s.troveManager.Troves a).arrayIndex, ?_⟩ <;> rw [h]

theorem fields (h : SamePosition s s' a) : (TroveManager.trove s' a).coll = (TroveManager.trove s a).coll ∧
    (TroveManager.trove s' a).debt = (TroveManager.trove s a).debt ∧
    (TroveManager.trove s' a).stake = (TroveManager.trove s a).stake ∧
    (TroveManager.trove s' a).status = (TroveManager.trove s a).status := by
  obtain ⟨i, hi⟩ := h.trove
  simp only [TroveManager.trove, hi, and_self]

theorem getPendingWSTETHReward (h : SamePosition s s' a) :
    TroveManager.getPendingWSTETHReward s' a = TroveManager.getPendingWSTETHReward s a := by
  obtain ⟨-, -, h1, h2⟩ := h.fields
  simp only [TroveManager.getPendingWSTETHReward, pendingReward, h.L_WSTETH, h.snapshot, h1, h2]

theorem getPendingSIMDebtReward (h : SamePosition s s' a) :
    TroveManager.getPendingSIMDebtReward s' a = TroveManager.getPendingSIMDebtReward s a := by
  obtain ⟨-, -, h1, h2⟩ := h.fields
  simp only [TroveManager.getPendingSIMDebtReward, pendingReward, h.L_SIMDebt, h.snapshot, h1, h2]

theorem getCurrentTroveAmounts (h : SamePosition s s' a) :
    TroveManager.getCurrentTroveAmounts s' a = TroveManager.getCurrentTroveAmounts s a := by
  obtain ⟨h1, h2, -, -⟩ := h.fields
  simp only [TroveManager.getCurrentTroveAmounts, h.getPendingWSTETHReward, h.getPendingSIMDebtReward, h1, h2]

theorem getNominalICR (h : SamePosition s s' a) : TroveManager.getNominalICR s' a = TroveManager.getNominalICR s a := by
  simp only [TroveManager.getNominalICR, h.getCurrentTroveAmounts]

theorem getCurrentICR (h : SamePosition s s' a) (price : ℕ) :
    TroveManager.getCurrentICR s' a price = TroveManager.getCurrentICR s a price := by
  simp only [TroveManager.getCurrentICR, h.getCurrentTroveAmounts]

theorem getEntireDebtAndColl (h : SamePosition s s' a) :
    TroveManager.getEntireDebtAndColl s' a = TroveManager.getEntireDebtAndColl s a := by
  obtain ⟨h1, h2, -, -⟩ := h.fields
  simp only [TroveManager.getEntireDebtAndColl, h.getPendingWSTETHReward, h.getPendingSIMDebtReward, h1, h2]

theorem hasPendingRewards (h : SamePosition s s' a) :
    TroveManager.hasPendingRewards s' a = TroveManager.hasPendingRewards s a := by
  obtain ⟨-, -, -, h1⟩ := h.fields
  simp only [TroveManager.hasPendingRewards, h.L_WSTETH, h.snapshot, h1]

end SamePosition

end TroveManager

/-! ## New troves -/

namespace BorrowerOperations

open TroveManager

variable {b : Address} {debt NICR : ℕ} {p n : Address}

/-- the records with a new trove -/
def createdManager (tm : Protocol.TroveManager) (borrower : Address) (coll debt stake : ℕ) : Protocol.TroveManager :=
  { tm with
    Troves := Function.update tm.Troves borrower
      { coll := (tm.Troves borrower).coll + coll, debt := (tm.Troves borrower).debt + debt, stake, status := .active,
        arrayIndex := tm.TroveOwners.length % 2 ^ 128 }
    rewardSnapshots := Function.update tm.rewardSnapshots borrower ⟨tm.L_WSTETH, tm.L_SIMDebt⟩
    totalStakes := tm.totalStakes - (tm.Troves borrower).stake + stake
    TroveOwners := tm.TroveOwners ++ [borrower] }

/-- a new trove, with its node -/
structure Created (s s' : System) (b : Address) (coll debt NICR : ℕ) : Prop where
  stake : ∃ stake, computeNewStake s ((trove s b).coll + coll) = .ok stake ∧
    (trove s b).stake ≤ s.troveManager.totalStakes ∧ s'.troveManager = createdManager s.troveManager b coll debt stake
  list : ∃ nicr p n, (∀ a, a ≠ b → nicr a = getNominalICR s a) ∧
    SortedTroves.insert s.sortedTroves nicr b NICR p n = .ok s'.sortedTroves
  rest : s' = { s with troveManager := s'.troveManager, sortedTroves := s'.sortedTroves }

theorem createTrove_ok (h : createTrove c s b amount debt NICR p n = .ok s') : Created s s' b amount debt NICR := by
  simp only [createTrove, setTroveStatus, increaseTroveColl, increaseTroveDebt, updateTroveRewardSnapshots,
    updateStakeAndTotalStakes, addTroveOwnerToArray, requireCallerIsBorrowerOperations] at h
  obtain ⟨s₁, h1, h⟩ := bind_ok.1 h
  obtain ⟨s₂, h2, h⟩ := bind_ok.1 h
  obtain ⟨s₃, h3, h⟩ := bind_ok.1 h
  obtain ⟨s₄, h4, h⟩ := bind_ok.1 h
  obtain ⟨s₅, h5, h⟩ := bind_ok.1 h
  obtain ⟨s₆, h6, h⟩ := bind_ok.1 h
  simp only [require_bind, uadd_bind, pure_ok] at h1 h2 h3 h4 h5
  obtain ⟨-, rfl⟩ := h1
  obtain ⟨-, -, rfl⟩ := h2
  obtain ⟨-, -, rfl⟩ := h3
  obtain ⟨-, rfl⟩ := h4
  obtain ⟨stake, hs, hle, rfl⟩ := recomputeStake_ok h5.2
  obtain ⟨list, hl, h6⟩ := bind_ok.1 h6
  cases h6
  simp only [require_bind, pure_ok] at h
  obtain ⟨-, rfl⟩ := h
  simp only [writeTrove, writeTroveRewardSnapshots, trove, stakedManager, Function.update_self, Function.update_idem,
    List.length_append, List.length_singleton, Nat.add_sub_cancel] at hs hle hl ⊢
  refine ⟨⟨stake, hs, hle, rfl⟩, ⟨_, p, n, fun a ha => ?_, hl⟩, rfl⟩
  refine SamePosition.getNominalICR ⟨rfl, rfl, ?_, (s.troveManager.Troves a).arrayIndex, ?_⟩
  · exact Function.update_of_ne ha _ _
  · exact Function.update_of_ne ha _ _

/-! ## Changed troves -/

/-- a trove with other amounts and the stake for them, at the place of its new ratio -/
structure Edited (s s' : System) (b : Address) (coll debt : ℕ) : Prop where
  stake : ∃ stake, computeNewStake s coll = .ok stake ∧ (trove s b).stake ≤ s.troveManager.totalStakes ∧
    s'.troveManager = { s.troveManager with
      Troves := Function.update s.troveManager.Troves b { trove s b with coll, debt, stake }
      totalStakes := s.troveManager.totalStakes - (trove s b).stake + stake }
  list : ∃ nicr NICR p n, (∀ a, a ≠ b → nicr a = getNominalICR s a) ∧ computeNominalCR coll debt = .ok NICR ∧
    SortedTroves.reInsert s.sortedTroves nicr b NICR p n = .ok s'.sortedTroves
  rest : s' = { s with troveManager := s'.troveManager, sortedTroves := s'.sortedTroves }

theorem changed_ok {x y : ℕ} {up : Bool} (h : changed amount x up = .ok y) :
    y = (if up then amount + x else amount - x) ∧ (up = false → x ≤ amount) := by
  unfold changed at h
  cases up with
  | true =>
    simp only [if_true, uadd_ok] at h
    exact ⟨by simp [h.2], fun e => Bool.noConfusion e⟩
  | false =>
    simp only [Bool.false_eq_true, if_false, usub_ok] at h
    exact ⟨by simp [h.2], fun _ => h.1⟩

/-- an amount after a change -/
def after (amount x : ℕ) (up : Bool) : ℕ := if up then amount + x else amount - x

theorem changeTroveColl_ok {x : TroveChange} (h : changeTroveColl c s b x = .ok s') :
    s' = writeTrove s b { trove s b with coll := after (trove s b).coll x.collChange x.isCollIncrease } := by
  unfold changeTroveColl at h
  split_ifs at h with hup
  · simp only [increaseTroveColl, requireCallerIsBorrowerOperations, require_bind, uadd_bind, pure_ok] at h
    rw [← h.2.2, after, if_pos hup]
  · simp only [decreaseTroveColl, requireCallerIsBorrowerOperations, require_bind, usub_bind, pure_ok] at h
    rw [← h.2.2, after, if_neg hup]

theorem changeTroveDebt_ok {x : TroveChange} (h : changeTroveDebt c s b x = .ok s') :
    s' = writeTrove s b { trove s b with debt := after (trove s b).debt x.debtChange x.isDebtIncrease } := by
  unfold changeTroveDebt at h
  split_ifs at h with hup
  · simp only [increaseTroveDebt, requireCallerIsBorrowerOperations, require_bind, uadd_bind, pure_ok] at h
    rw [← h.2.2, after, if_pos hup]
  · simp only [decreaseTroveDebt, requireCallerIsBorrowerOperations, require_bind, usub_bind, pure_ok] at h
    rw [← h.2.2, after, if_neg hup]

theorem recomputeStake_edited {coll debt : ℕ} {s₁ : System} {nicr : Address → Res ℕ}
    (hs₁ : s₁ = writeTrove s b { trove s b with coll, debt }) (h : recomputeStake s₁ b = .ok s') {list : SortedTroves.Data}
    (hnicr : ∀ a, a ≠ b → nicr a = getNominalICR s a) (hN : computeNominalCR coll debt = .ok NICR)
    (hl : SortedTroves.reInsert s.sortedTroves nicr b NICR p n = .ok list) :
    Edited s { s' with sortedTroves := list } b coll debt := by
  obtain ⟨stake, hs, hle, rfl⟩ := recomputeStake_ok h
  subst hs₁
  simp only [writeTrove, trove, Function.update_self, stakedManager, Function.update_idem] at hs hle ⊢
  exact ⟨⟨stake, hs, hle, rfl⟩, ⟨nicr, NICR, p, n, hnicr, hN, hl⟩, rfl⟩

/-! ## Fees -/

/-- a fee that was minted, or none -/
structure FeeCharged (c : Config) (s s' : System) (charged : Bool) (SIMAmount netDebt fee : ℕ) : Prop where
  netDebt : netDebt = SIMAmount + fee
  free : charged = false → fee = 0
  sim : (∃ t, s.sim.mint c.simVeDistributor (fee / 2) = .ok t ∧ t.mint c.feeReceiver (fee - fee / 2) = .ok s'.sim) ∨
    fee = 0 ∧ s'.sim = s.sim
  state : ∃ r t, s' = { s with
    sim := s'.sim
    troveManager := { s.troveManager with baseRate := r, lastFeeOperationTime := t } }

/-- the base rate decays, then the fee is minted in two parts -/
theorem triggerBorrowingFee_ok {SIMAmount maxFee fee : ℕ}
    (h : triggerBorrowingFee c env s SIMAmount maxFee = .ok (s', fee)) :
    ∃ s₁ t t', decayBaseRateFromBorrowing c c.borrowerOperations s env.timestamp = .ok s₁ ∧
      s₁.sim.mint c.simVeDistributor (fee / 2) = .ok t ∧ t.mint c.feeReceiver (fee - fee / 2) = .ok t' ∧
      s' = { s₁ with sim := t' } := by
  obtain ⟨s₁, h1, h⟩ := bind_ok.1 h
  obtain ⟨fee', -, h⟩ := bind_ok.1 h
  obtain ⟨-, -, h⟩ := bind_ok.1 h
  obtain ⟨s₂, h2, h⟩ := bind_ok.1 h
  obtain ⟨-, -, h⟩ := bind_ok.1 h
  obtain ⟨s₃, h3, h⟩ := bind_ok.1 h
  cases h
  obtain ⟨t, ht, rfl⟩ := SIMToken.mint_ok h2
  obtain ⟨t', ht', rfl⟩ := SIMToken.mint_ok h3
  exact ⟨s₁, t, t', h1, ht, ht', rfl⟩

theorem chargeFee_ok {charged : Bool} {SIMAmount maxFee netDebt : ℕ}
    (h : chargeFee c env s charged SIMAmount maxFee = .ok (s', netDebt)) :
    ∃ fee, FeeCharged c s s' charged SIMAmount netDebt fee := by
  unfold chargeFee at h
  split_ifs at h with hc
  · obtain ⟨⟨s₁, fee⟩, h1, h⟩ := bind_ok.1 h
    simp only [uadd_bind, pure_ok, Prod.mk.injEq] at h
    obtain ⟨-, rfl, rfl⟩ := h
    obtain ⟨s₂, t₁, t₂, hdecay, ht₁, ht₂, rfl⟩ := triggerBorrowingFee_ok h1
    obtain ⟨r, t, rfl⟩ := decayBaseRateFromBorrowing_ok hdecay
    exact ⟨fee, rfl, fun e => absurd hc (by simp [e]), .inl ⟨t₁, ht₁, ht₂⟩, r, t, rfl⟩
  · cases h
    exact ⟨0, rfl, fun _ => rfl, .inr ⟨rfl, rfl⟩, s.troveManager.baseRate, s.troveManager.lastFeeOperationTime, rfl⟩

/-! ## Adjusting a trove -/

/-- the change an adjustment makes, for the net debt with the fee -/
def adjustChange (c : Config) (s : System) (a : AdjustArgs) (netDebtChange : ℕ) : TroveChange :=
  let collChange := getCollChange (s.wsteth.balanceOf c.borrowerOperations) a.collWithdrawal
  ⟨collChange.1, collChange.2, netDebtChange, a.isDebtIncrease⟩

/-- the trove's amounts after a change -/
def TroveChange.newColl (x : TroveChange) (t : Trove) : ℕ := after t.coll x.collChange x.isCollIncrease
def TroveChange.newDebt (x : TroveChange) (t : Trove) : ℕ := after t.debt x.debtChange x.isDebtIncrease

/-- the states an adjustment passes: rewards applied, fee charged, trove changed, tokens moved -/
structure AdjustSteps (c : Config) (env : Env) (sender : Address) (s : System) (b : Address) (a : AdjustArgs) (price : ℕ)
    (isRecoveryMode : Bool) (s₁ s₂ s₃ s' : System) (netDebtChange : ℕ) : Prop where
  fetched : env.fetchPrice = .ok price
  mode : checkRecoveryMode s price = .ok isRecoveryMode
  increase : requireValidDebtIncrease isRecoveryMode a = .ok ()
  singular : s.wsteth.balanceOf c.borrowerOperations = 0 ∨ a.collWithdrawal = 0
  nonZero : s.wsteth.balanceOf c.borrowerOperations ≠ 0 ∨ a.collWithdrawal ≠ 0 ∨ a.SIMChange ≠ 0
  active : (trove s b).status = .active
  owner : sender = b ∨ (sender = c.stabilityPool ∧ 0 < s.wsteth.balanceOf c.borrowerOperations ∧ a.SIMChange = 0)
  settled : settlePendingRewards c s b = .ok s₁
  fee : chargeFee c env s₁ (a.isDebtIncrease && !isRecoveryMode) a.SIMChange a.maxFeePercentage = .ok (s₂, netDebtChange)
  ratios : ∃ oldICR newICR, computeCR (trove s₂ b).coll (trove s₂ b).debt price = .ok oldICR ∧
    computeCR ((adjustChange c s a netDebtChange).newColl (trove s₂ b)) ((adjustChange c s a netDebtChange).newDebt (trove s₂ b))
      price = .ok newICR ∧
    requireValidAdjustmentInCurrentMode s₂ isRecoveryMode a.collWithdrawal oldICR newICR price
      (adjustChange c s a netDebtChange) = .ok ()
  withdrawal : a.collWithdrawal ≤ (trove s₂ b).coll
  decrease : a.isDebtIncrease = false → netDebtChange ≤ (trove s₂ b).debt
  repayment : requireValidRepayment s₂ b (trove s₂ b).debt netDebtChange a = .ok ()
  edited : Edited s₂ s₃ b ((adjustChange c s a netDebtChange).newColl (trove s₂ b))
    ((adjustChange c s a netDebtChange).newDebt (trove s₂ b))
  moved : moveTokensAndWSTETHfromAdjustment c s₃ sender (adjustChange c s a netDebtChange) a.SIMChange = .ok s'

theorem getNewTroveAmounts_ok {coll debt : ℕ} {x : TroveChange} {y : ℕ × ℕ} (h : getNewTroveAmounts coll debt x = .ok y) :
    y = (after coll x.collChange x.isCollIncrease, after debt x.debtChange x.isDebtIncrease) ∧
      (x.isDebtIncrease = false → x.debtChange ≤ debt) := by
  obtain ⟨newColl, h1, h⟩ := bind_ok.1 h
  obtain ⟨newDebt, h2, h⟩ := bind_ok.1 h
  cases h
  obtain ⟨rfl, -⟩ := changed_ok h1
  obtain ⟨rfl, hle⟩ := changed_ok h2
  exact ⟨rfl, hle⟩

theorem adjust_ok {sender : Address} {a : AdjustArgs} (h : adjust c env sender s b a = .ok s') :
    ∃ price isRecoveryMode s₁ s₂ s₃ netDebtChange,
      AdjustSteps c env sender s b a price isRecoveryMode s₁ s₂ s₃ s' netDebtChange := by
  simp only [adjust, requireSingularCollChange, requireNonZeroAdjustment, requireTroveisActive, applyPendingRewards,
    requireCallerIsBorrowerOperations] at h
  obtain ⟨price, hprice, h⟩ := bind_ok.1 h
  obtain ⟨isRecoveryMode, hmode, h⟩ := bind_ok.1 h
  obtain ⟨_, hincrease, h⟩ := bind_ok.1 h
  simp only [require_bind, assert_bind] at h
  obtain ⟨hsingular, hnonZero, hactive, hsender, h⟩ := h
  obtain ⟨s₁, h1, h⟩ := bind_ok.1 h
  simp only [require_bind] at h1
  obtain ⟨⟨s₂, net⟩, hfee, h⟩ := bind_ok.1 h
  obtain ⟨oldICR, hold, h⟩ := bind_ok.1 h
  obtain ⟨newICR, hnew, h⟩ := bind_ok.1 h
  simp only [assert_bind] at h
  obtain ⟨hwithdrawal, h⟩ := h
  obtain ⟨_, hvalid, h⟩ := bind_ok.1 h
  obtain ⟨_, hrepay, h⟩ := bind_ok.1 h
  obtain ⟨s₃, h3, h⟩ := bind_ok.1 h
  obtain ⟨s₄, h4, h⟩ := bind_ok.1 h
  obtain ⟨NICR, hN, h⟩ := bind_ok.1 h
  obtain ⟨s₅, h5, h⟩ := bind_ok.1 h
  obtain ⟨y, hy, hnew⟩ := bind_ok.1 hnew
  obtain ⟨rfl, hle⟩ := getNewTroveAmounts_ok hy
  obtain ⟨y, hy, hN⟩ := bind_ok.1 hN
  obtain ⟨rfl, -⟩ := getNewTroveAmounts_ok hy
  obtain ⟨s₆, h6, h3⟩ := bind_ok.1 h3
  obtain rfl := changeTroveColl_ok h6
  obtain rfl := changeTroveDebt_ok h3
  simp only [updateStakeAndTotalStakes, requireCallerIsBorrowerOperations, require_bind] at h4
  obtain ⟨list, hl, h5⟩ := bind_ok.1 h5
  cases h5
  refine ⟨price, isRecoveryMode, s₁, s₂, _, net, hprice, hmode, hincrease, hsingular, hnonZero, hactive, hsender, h1.2, hfee,
    ⟨oldICR, newICR, hold, hnew, hvalid⟩, hwithdrawal, hle, hrepay, ?_, h⟩
  obtain ⟨-, h4⟩ := h4
  have hlist : s₄.sortedTroves = s₂.sortedTroves := by
    obtain ⟨stake, -, -, rfl⟩ := recomputeStake_ok h4
    rfl
  rw [hlist] at hl
  refine recomputeStake_edited ?_ h4 (fun a ha => ?_) hN hl
  · simp only [writeTrove, trove, Function.update_self, Function.update_idem]
    rfl
  · obtain ⟨stake, -, -, rfl⟩ := recomputeStake_ok h4
    refine SamePosition.getNominalICR ⟨rfl, rfl, rfl, (s₂.troveManager.Troves a).arrayIndex, ?_⟩
    simp only [writeTrove, stakedManager, Function.update_of_ne ha]

/-! ## Opening and closing a trove -/

/-- the states an opening passes: fee charged, trove created, collateral added, SIM issued -/
structure OpenSteps (c : Config) (env : Env) (sender : Address) (s : System) (amount maxFeePercentage SIMAmount price : ℕ)
    (isRecoveryMode : Bool) (s₀ s₁ s₂ s₃ s' : System) (netDebt : ℕ) : Prop where
  received : transferFromWSTETH s c.borrowerOperations sender c.borrowerOperations amount = .ok s₀
  fetched : env.fetchPrice = .ok price
  mode : checkRecoveryMode s₀ price = .ok isRecoveryMode
  notActive : (trove s₀ sender).status ≠ .active
  fee : chargeFee c env s₀ (!isRecoveryMode) SIMAmount maxFeePercentage = .ok (s₁, netDebt)
  min : MIN_NET_DEBT ≤ netDebt
  created : ∃ ICR NICR, computeCR amount netDebt price = .ok ICR ∧ computeNominalCR amount netDebt = .ok NICR ∧
    requireValidOpening s₁ isRecoveryMode ICR price amount netDebt = .ok () ∧ Created s₁ s₂ sender amount netDebt NICR
  added : activePoolAddColl c s₂ amount = .ok s₃
  issued : issueSIM c s₃ sender SIMAmount netDebt = .ok s'

theorem openTrove_ok {sender : Address} {maxFeePercentage SIMAmount : ℕ}
    (h : openTrove c env sender s amount maxFeePercentage SIMAmount p n = .ok s') :
    ∃ price isRecoveryMode s₀ s₁ s₂ s₃ netDebt,
      OpenSteps c env sender s amount maxFeePercentage SIMAmount price isRecoveryMode s₀ s₁ s₂ s₃ s' netDebt := by
  simp only [openTrove, requireTroveisNotActive, requireAtLeastMinNetDebt, getCompositeDebt] at h
  obtain ⟨s₀, h0, h⟩ := bind_ok.1 h
  obtain ⟨price, hprice, h⟩ := bind_ok.1 h
  obtain ⟨isRecoveryMode, hmode, h⟩ := bind_ok.1 h
  obtain ⟨-, -, h⟩ := bind_ok.1 h
  simp only [require_bind] at h
  obtain ⟨hactive, h⟩ := h
  obtain ⟨⟨s₁, netDebt⟩, hfee, h⟩ := bind_ok.1 h
  simp only [require_bind] at h
  obtain ⟨hmin, h⟩ := h
  obtain ⟨_, -, h⟩ := bind_ok.1 h
  obtain ⟨ICR, hICR, h⟩ := bind_ok.1 h
  obtain ⟨NICR, hNICR, h⟩ := bind_ok.1 h
  obtain ⟨_, hvalid, h⟩ := bind_ok.1 h
  obtain ⟨s₂, h2, h⟩ := bind_ok.1 h
  obtain ⟨s₃, h3, h⟩ := bind_ok.1 h
  exact ⟨price, isRecoveryMode, s₀, s₁, s₂, s₃, netDebt, h0, hprice, hmode, hactive, hfee, hmin,
    ⟨ICR, NICR, hICR, hNICR, hvalid, createTrove_ok h2⟩, h3, h⟩

/-- the states a closing passes: rewards applied, stake removed, trove closed, SIM burned, collateral sent -/
structure CloseSteps (c : Config) (env : Env) (sender : Address) (s : System) (price : ℕ) (s₁ s₂ s₃ s₄ s' : System) :
    Prop where
  active : (trove s sender).status = .active
  fetched : env.fetchPrice = .ok price
  mode : checkRecoveryMode s price = .ok false
  settled : settlePendingRewards c s sender = .ok s₁
  ratio : ∃ newTCR, getNewTCRFromTroveChange s₁ ⟨(trove s₁ sender).coll, false, (trove s₁ sender).debt, false⟩ price
    = .ok newTCR ∧ CCR ≤ newTCR
  unstaked : clearStake s₁ sender = .ok s₂
  shut : Shut s₂ s₃ sender .closedByOwner
  burned : burnSIM c s₃ sender (trove s₁ sender).debt = .ok s₄
  sent : ActivePool.sendWSTETH c c.borrowerOperations s₄ sender (trove s₁ sender).coll = .ok s'

theorem closeTrove_ok {sender : Address} (h : BorrowerOperations.closeTrove c env sender s = .ok s') :
    ∃ price s₁ s₂ s₃ s₄, CloseSteps c env sender s price s₁ s₂ s₃ s₄ s' := by
  simp only [BorrowerOperations.closeTrove, requireTroveisActive, requireNotInRecoveryMode, requireSufficientSIMBalance,
    requireNewTCRisAboveCCR, applyPendingRewards, removeStake, TroveManager.closeTrove, requireCallerIsBorrowerOperations,
    require_bind] at h
  obtain ⟨hactive, h⟩ := h
  obtain ⟨price, hprice, h⟩ := bind_ok.1 h
  obtain ⟨_, hmode, h⟩ := bind_ok.1 h
  obtain ⟨isRecoveryMode, hrec, hmode⟩ := bind_ok.1 hmode
  obtain ⟨s₁, h1, h⟩ := bind_ok.1 h
  simp only [require_bind] at h1 h
  obtain ⟨-, h⟩ := h
  obtain ⟨newTCR, hTCR, h⟩ := bind_ok.1 h
  simp only [require_bind] at h
  obtain ⟨hCCR, h⟩ := h
  obtain ⟨s₂, h2, h⟩ := bind_ok.1 h
  obtain ⟨s₃, h3, h⟩ := bind_ok.1 h
  obtain ⟨s₄, h4, h⟩ := bind_ok.1 h
  simp only [require_bind] at h2 h3
  have hfalse : isRecoveryMode = false := by
    unfold require at hmode
    split_ifs at hmode with hm
    exact hm
  subst hfalse
  exact ⟨price, s₁, s₂, s₃, s₄, hactive, hprice, hrec, h1.2, ⟨newTCR, hTCR, hCCR⟩, h2.2, shutTrove_ok h3.2, h4, h⟩

end BorrowerOperations

/-! ## Liquidating a trove -/

namespace TroveManager

variable {SIMInStabPool price : ℕ} {v : LiquidationValues}

/-- how a trove's debt and collateral are split -/
structure Split (v : LiquidationValues) (SIMInStabPool : ℕ) : Prop where
  debt : v.debtToOffset + v.debtToRedistribute = v.entireTroveDebt
  coll : v.collGasCompensation + v.collToSendToSP + v.collToRedistribute + v.collSurplus = v.entireTroveColl
  offset_le : v.debtToOffset ≤ SIMInStabPool
  /-- collateral only goes to the pool with debt -/
  offset : v.debtToOffset = 0 → v.collToSendToSP = 0
  /-- collateral is only redistributed with debt -/
  redistribute : 0 < v.entireTroveDebt → v.debtToRedistribute = 0 → v.collToRedistribute = 0
  /-- a debt is offset in part only when the pool is used up -/
  whole : v.debtToOffset = 0 ∨ v.debtToOffset = v.entireTroveDebt ∨ v.debtToOffset = SIMInStabPool

/-- the states a liquidation of one trove passes: rewards moved, stake removed, trove closed, surplus recorded -/
structure Liquidated (c : Config) (s s' : System) (b : Address) (v : LiquidationValues) (SIMInStabPool : ℕ) : Prop where
  split : Split v SIMInStabPool
  steps : ∃ t s₁ s₂ s₃, getEntireDebtAndColl s b = .ok t ∧ v.entireTroveDebt = t.debt ∧ v.entireTroveColl = t.coll ∧
    Moved c s s₁ t.pendingSIMDebtReward t.pendingWSTETHReward ∧ clearStake s₁ b = .ok s₂ ∧
    Shut s₂ s₃ b .closedByLiquidation ∧ accountCollSurplus c s₃ b v.collSurplus = .ok s'

theorem getOffsetAndRedistributionVals_ok {debt coll : ℕ} {o : OffsetValues}
    (h : getOffsetAndRedistributionVals debt coll SIMInStabPool = .ok o) :
    o.debtToOffset + o.debtToRedistribute = debt ∧ o.collToSendToSP + o.collToRedistribute = coll ∧
      o.debtToOffset ≤ SIMInStabPool ∧ (o.debtToOffset = 0 → o.collToSendToSP = 0) ∧
      (0 < debt → o.debtToRedistribute = 0 → o.collToRedistribute = 0) ∧
      (o.debtToOffset = 0 ∨ o.debtToOffset = debt ∨ o.debtToOffset = SIMInStabPool) := by
  unfold getOffsetAndRedistributionVals at h
  split_ifs at h with hpos
  · simp only [umul_bind, udiv_bind, usub_bind, pure_ok] at h
    obtain ⟨-, hdebt, hle, hle', rfl⟩ := h
    refine ⟨by dsimp only; omega, by dsimp only; omega, min_le_right _ _, fun h0 => ?_, fun _ h0 => ?_,
      .inr (min_choice _ _)⟩
    · dsimp only at h0 ⊢
      rw [h0, Nat.mul_zero, Nat.zero_div]
    · dsimp only at h0 ⊢
      have hall : min debt SIMInStabPool = debt := by omega
      rw [hall, Nat.mul_div_cancel _ hdebt, Nat.sub_self]
  · cases h
    refine ⟨Nat.zero_add _, Nat.zero_add _, Nat.zero_le _, fun _ => rfl, fun h1 h2 => ?_, .inl rfl⟩
    dsimp only at h2
    omega

theorem liquidateNormalMode_ok (h : liquidateNormalMode c s borrower SIMInStabPool = .ok (s', v)) :
    Liquidated c s s' borrower v SIMInStabPool := by
  obtain ⟨t, ht, h⟩ := bind_ok.1 h
  obtain ⟨s₂, h1, h⟩ := bind_ok.1 h
  obtain ⟨s₁, h0, h1⟩ := bind_ok.1 h1
  simp only [usub_bind] at h
  obtain ⟨hgas, h⟩ := h
  obtain ⟨o, ho, h⟩ := bind_ok.1 h
  obtain ⟨s₃, h3, h⟩ := bind_ok.1 h
  simp only [pure_ok, Prod.mk.injEq] at h
  obtain ⟨rfl, rfl⟩ := h
  obtain ⟨h4, h5, h6, h7, h8, h9⟩ := getOffsetAndRedistributionVals_ok ho
  refine ⟨⟨h4, by dsimp only; omega, h6, h7, h8, h9⟩, t, s₁, s₂, s₃, ht, rfl, rfl,
    movePendingTroveRewardsToActivePool_ok h0, h1, shutTrove_ok h3, rfl⟩

theorem getCappedOffsetVals_ok {debt coll : ℕ} (h : getCappedOffsetVals debt coll price = .ok v)
    (hle : debt ≤ SIMInStabPool) : Split v SIMInStabPool ∧ v.entireTroveDebt = debt ∧ v.entireTroveColl = coll := by
  simp only [getCappedOffsetVals, umul_bind, udiv_bind, usub_bind, pure_ok] at h
  obtain ⟨-, -, hgas, hcap, rfl⟩ := h
  refine ⟨⟨rfl, by dsimp only; omega, hle, fun h0 => ?_, fun _ _ => rfl, .inr (.inl rfl)⟩, rfl, rfl⟩
  dsimp only at h0 ⊢
  rw [h0, Nat.zero_mul, Nat.zero_div, Nat.zero_sub]

/-- a trove is left alone, or it is closed -/
theorem liquidateRecoveryMode_ok {ICR TCR : ℕ}
    (h : liquidateRecoveryMode c s borrower ICR SIMInStabPool TCR price = .ok (s', v)) :
    s' = s ∧ v = .zero ∨ (ICR < MCR ∨ ICR < TCR) ∧ Liquidated c s s' borrower v SIMInStabPool := by
  unfold liquidateRecoveryMode at h
  by_cases hlast : s.troveManager.TroveOwners.length ≤ 1
  · rw [if_pos hlast] at h
    cases h
    exact .inl ⟨rfl, rfl⟩
  rw [if_neg hlast] at h
  obtain ⟨t, ht, h⟩ := bind_ok.1 h
  simp only [usub_bind] at h
  obtain ⟨hgas, h⟩ := h
  by_cases h1 : ICR ≤ _100pct
  · rw [if_pos h1] at h
    right
    obtain ⟨s₂, h1', h⟩ := bind_ok.1 h
    obtain ⟨s₁, h0, h1'⟩ := bind_ok.1 h1'
    obtain ⟨s₃, h3, h⟩ := bind_ok.1 h
    simp only [pure_ok, Prod.mk.injEq] at h
    obtain ⟨rfl, rfl⟩ := h
    refine ⟨.inl (lt_of_le_of_lt h1 (by decide)),
      ⟨Nat.zero_add _, by dsimp only; omega, Nat.zero_le _, fun _ => rfl, fun h4 h5 => ?_, .inl rfl⟩,
      t, s₁, s₂, s₃, ht, rfl, rfl, movePendingTroveRewardsToActivePool_ok h0, h1', shutTrove_ok h3, rfl⟩
    dsimp only at h4 h5
    omega
  rw [if_neg h1] at h
  by_cases h2 : ICR < MCR
  · rw [if_pos h2] at h
    right
    obtain ⟨s₂, h1', h⟩ := bind_ok.1 h
    obtain ⟨s₁, h0, h1'⟩ := bind_ok.1 h1'
    obtain ⟨o, ho, h⟩ := bind_ok.1 h
    obtain ⟨s₃, h3, h⟩ := bind_ok.1 h
    simp only [pure_ok, Prod.mk.injEq] at h
    obtain ⟨rfl, rfl⟩ := h
    obtain ⟨h4, h5, h6, h7, h8, h9⟩ := getOffsetAndRedistributionVals_ok ho
    exact ⟨.inl h2, ⟨h4, by dsimp only; omega, h6, h7, h8, h9⟩, t, s₁, s₂, s₃, ht, rfl, rfl,
      movePendingTroveRewardsToActivePool_ok h0, h1', shutTrove_ok h3, rfl⟩
  rw [if_neg h2] at h
  split_ifs at h with h3
  · right
    obtain ⟨s₁, h0, h⟩ := bind_ok.1 h
    simp only [assert_bind] at h
    obtain ⟨-, h⟩ := h
    obtain ⟨s₂, h1', h⟩ := bind_ok.1 h
    obtain ⟨w, hw, h⟩ := bind_ok.1 h
    obtain ⟨s₃, h4, h⟩ := bind_ok.1 h
    obtain ⟨s₄, h5, h⟩ := bind_ok.1 h
    simp only [pure_ok, Prod.mk.injEq] at h
    obtain ⟨rfl, rfl⟩ := h
    obtain ⟨hsplit, hd, hc⟩ := getCappedOffsetVals_ok hw h3.2
    exact ⟨.inr h3.1, hsplit, t, s₁, s₂, s₃, ht, hd, hc, movePendingTroveRewardsToActivePool_ok h0, h1',
      shutTrove_ok h4, h5⟩
  · cases h
    exact .inl ⟨rfl, rfl⟩

/-! ## Liquidating troves in sequence -/

/-- totals with the values of one more trove -/
def LiquidationTotals.add (t : LiquidationTotals) (v : LiquidationValues) : LiquidationTotals where
  totalCollInSequence := t.totalCollInSequence + v.entireTroveColl
  totalDebtInSequence := t.totalDebtInSequence + v.entireTroveDebt
  totalCollGasCompensation := t.totalCollGasCompensation + v.collGasCompensation
  totalDebtToOffset := t.totalDebtToOffset + v.debtToOffset
  totalCollToSendToSP := t.totalCollToSendToSP + v.collToSendToSP
  totalDebtToRedistribute := t.totalDebtToRedistribute + v.debtToRedistribute
  totalCollToRedistribute := t.totalCollToRedistribute + v.collToRedistribute
  totalCollSurplus := t.totalCollSurplus + v.collSurplus

theorem addLiquidationValuesToTotals_ok {t t' : LiquidationTotals} (h : addLiquidationValuesToTotals t v = .ok t') :
    t' = t.add v := by
  simp only [addLiquidationValuesToTotals, uadd_bind, pure_ok] at h
  exact h.2.2.2.2.2.2.2.2.symm

/-- a trove with a finite ratio has a debt -/
theorem entireDebt_pos {ICR : ℕ} {t : EntireTrove} (hICR : getCurrentICR s borrower price = .ok ICR) (hlt : ICR < uintMax)
    (ht : getEntireDebtAndColl s borrower = .ok t) : 0 < t.debt := by
  obtain ⟨x, hx, hICR⟩ := bind_ok.1 hICR
  obtain ⟨pw, pd, hpw, hpd, rfl⟩ := getCurrentTroveAmounts_ok hx
  obtain ⟨hpd', -, hdebt, -⟩ := getEntireDebtAndColl_ok ht
  rw [hpd] at hpd'
  cases hpd'
  have hval := computeCR_ok hICR
  by_contra h0
  rw [if_neg (hdebt ▸ h0)] at hval
  omega

theorem computeCR_le_uintMax {coll debt r : ℕ} (h : computeCR coll debt price = .ok r) : r ≤ uintMax := by
  unfold computeCR at h
  split_ifs at h
  · simp only [umul_bind, udiv_ok] at h
    obtain ⟨hlt, -, rfl⟩ := h
    have hdiv := Nat.div_le_self (coll * price) debt
    unfold uintMax
    omega
  · cases h
    exact le_rfl

/-- one trove of a sequence: it is left alone, or liquidated and counted -/
structure SequenceStep (c : Config) (user : Address) (v v' : LiquidationSequence) (single : LiquidationValues) : Prop where
  state : v'.s = v.s ∧ single = .zero ∨
    0 < single.entireTroveDebt ∧ Liquidated c v.s v'.s user single v.remainingSIMInStabPool
  totals : v'.totals = v.totals.add single
  remaining : single.debtToOffset + v'.remainingSIMInStabPool = v.remainingSIMInStabPool

variable {user : Address} {v v' : LiquidationSequence} {n ICR : ℕ}

theorem Liquidated.entireDebt_pos {s' : System} {w : LiquidationValues} (h : Liquidated c s s' borrower w SIMInStabPool)
    (hICR : getCurrentICR s borrower price = .ok ICR) (hlt : ICR < uintMax) : 0 < w.entireTroveDebt := by
  obtain ⟨t, -, -, -, ht, hdebt, -⟩ := h.steps
  rw [hdebt]
  exact TroveManager.entireDebt_pos hICR hlt ht

theorem recoveryStep_ok (h : recoveryStep c price user ICR v = .ok v') (hICR : getCurrentICR v.s user price = .ok ICR) :
    ∃ single, SequenceStep c user v v' single := by
  obtain ⟨TCR, hTCR, h⟩ := bind_ok.1 h
  obtain ⟨⟨s, single⟩, h1, h⟩ := bind_ok.1 h
  simp only [usub_bind] at h
  obtain ⟨hle, -, -, -, -, h⟩ := h
  obtain ⟨totals, htot, h⟩ := bind_ok.1 h
  obtain ⟨inRecovery, -, h⟩ := bind_ok.1 h
  cases h
  have hmax := computeCR_le_uintMax hTCR
  refine ⟨single, (liquidateRecoveryMode_ok h1).imp id fun ⟨hlow, hl⟩ => ⟨hl.entireDebt_pos hICR ?_, hl⟩,
    addLiquidationValuesToTotals_ok htot, by dsimp only; omega⟩
  rcases hlow with hlow | hlow
  · exact hlow.trans (by decide)
  · omega

theorem normalStep_ok (h : normalStep c user v = .ok v') (hICR : getCurrentICR v.s user price = .ok ICR)
    (hlow : ICR < MCR) : ∃ single, SequenceStep c user v v' single := by
  obtain ⟨⟨s, single⟩, h1, h⟩ := bind_ok.1 h
  simp only [usub_bind] at h
  obtain ⟨hle, h⟩ := h
  obtain ⟨totals, htot, h⟩ := bind_ok.1 h
  cases h
  have hl := liquidateNormalMode_ok h1
  exact ⟨single, .inr ⟨hl.entireDebt_pos hICR (hlow.trans (by decide)), hl⟩, addLiquidationValuesToTotals_ok htot,
    by dsimp only; omega⟩

/-- any number of troves, one after the other -/
abbrev Sequence (c : Config) : LiquidationSequence → LiquidationSequence → Prop :=
  Relation.ReflTransGen fun v v' => ∃ user single, SequenceStep c user v v' single

theorem Sequence.cons {v₁ : LiquidationSequence} (h : ∃ single, SequenceStep c user v v₁ single) (h' : Sequence c v₁ v') :
    Sequence c v v' :=
  Relation.ReflTransGen.head ⟨user, h⟩ h'

theorem liquidateTrovesRecoveryLoop_ok {firstUser : Address}
    (h : liquidateTrovesRecoveryLoop c price firstUser n user v = .ok v') : Sequence c v v' := by
  induction n generalizing user v with
  | zero =>
    cases h
    exact .refl
  | succ n ih =>
    unfold liquidateTrovesRecoveryLoop at h
    by_cases hfirst : user = firstUser
    · rw [if_pos hfirst] at h
      cases h
      exact .refl
    rw [if_neg hfirst] at h
    obtain ⟨ICR, hICR, h⟩ := bind_ok.1 h
    split_ifs at h with h1 h2 h3
    · cases h
      exact .refl
    · obtain ⟨v₁, hv, h⟩ := bind_ok.1 h
      exact Sequence.cons (recoveryStep_ok hv hICR) (ih h)
    · obtain ⟨v₁, hv, h⟩ := bind_ok.1 h
      exact Sequence.cons (normalStep_ok hv hICR h3) (ih h)
    · cases h
      exact .refl

theorem liquidateTrovesNormalLoop_ok (h : liquidateTrovesNormalLoop c price n v = .ok v') : Sequence c v v' := by
  induction n generalizing v with
  | zero =>
    cases h
    exact .refl
  | succ n ih =>
    obtain ⟨ICR, hICR, h⟩ := bind_ok.1 h
    split_ifs at h with h1
    · obtain ⟨v₁, hv, h⟩ := bind_ok.1 h
      exact Sequence.cons (normalStep_ok hv hICR h1) (ih h)
    · cases h
      exact .refl

theorem batchRecoveryLoop_ok {users : List Address} (h : batchRecoveryLoop c price users v = .ok v') : Sequence c v v' := by
  induction users generalizing v with
  | nil =>
    cases h
    exact .refl
  | cons user users ih =>
    unfold batchRecoveryLoop at h
    by_cases hactive : (trove v.s user).status ≠ .active
    · rw [if_pos hactive] at h
      exact ih h
    rw [if_neg hactive] at h
    obtain ⟨ICR, hICR, h⟩ := bind_ok.1 h
    split_ifs at h with h1 h2 h3
    · exact ih h
    · obtain ⟨v₁, hv, h⟩ := bind_ok.1 h
      exact Sequence.cons (recoveryStep_ok hv hICR) (ih h)
    · obtain ⟨v₁, hv, h⟩ := bind_ok.1 h
      exact Sequence.cons (normalStep_ok hv hICR h3) (ih h)
    · exact ih h

theorem batchNormalLoop_ok {users : List Address} (h : batchNormalLoop c price users v = .ok v') : Sequence c v v' := by
  induction users generalizing v with
  | nil =>
    cases h
    exact .refl
  | cons user users ih =>
    obtain ⟨ICR, hICR, h⟩ := bind_ok.1 h
    split_ifs at h with h1
    · obtain ⟨v₁, hv, h⟩ := bind_ok.1 h
      exact Sequence.cons (normalStep_ok hv hICR h1) (ih h)
    · exact ih h

/-- a whole liquidation, whichever loop found the troves -/
theorem liquidateTrovesTotals_ok {mode : Bool} (h : liquidateTrovesTotals c price s mode n = .ok v) :
    ∃ debt coll, Sequence c (startSequence s debt coll) v := by
  unfold liquidateTrovesTotals at h
  split_ifs at h
  · obtain ⟨debt, -, h⟩ := bind_ok.1 h
    obtain ⟨coll, -, h⟩ := bind_ok.1 h
    exact ⟨debt, coll, liquidateTrovesRecoveryLoop_ok h⟩
  · exact ⟨0, 0, liquidateTrovesNormalLoop_ok h⟩

theorem batchTotals_ok {mode : Bool} {troveArray : List Address} (h : batchTotals c price s mode troveArray = .ok v) :
    ∃ debt coll, Sequence c (startSequence s debt coll) v := by
  unfold batchTotals at h
  split_ifs at h
  · obtain ⟨debt, -, h⟩ := bind_ok.1 h
    obtain ⟨coll, -, h⟩ := bind_ok.1 h
    exact ⟨debt, coll, batchRecoveryLoop_ok h⟩
  · exact ⟨0, 0, batchNormalLoop_ok h⟩

/-- the payments at the end of a liquidation -/
structure FinishSteps (c : Config) (env : Env) (sender : Address) (s : System) (t : LiquidationTotals)
    (s₁ s₂ s₃ s₄ s' : System) : Prop where
  pos : 0 < t.totalDebtInSequence
  offset : StabilityPool.offset c env c.troveManager s t.totalDebtToOffset t.totalCollToSendToSP = .ok s₁
  redistributed : redistributeDebtAndColl c s₁ t.totalDebtToRedistribute t.totalCollToRedistribute = .ok s₂
  surplus : sendCollSurplus c s₂ t.totalCollSurplus = .ok s₃
  snapshot : updateSystemSnapshots_excludeCollRemainder s₃ t.totalCollGasCompensation = .ok s₄
  compensation : sendGasCompensation c s₄ sender t.totalCollGasCompensation = .ok s'

theorem finishLiquidation_ok {sender : Address} {t : LiquidationTotals}
    (h : finishLiquidation c env sender s t = .ok s') : ∃ s₁ s₂ s₃ s₄, FinishSteps c env sender s t s₁ s₂ s₃ s₄ s' := by
  simp only [finishLiquidation, require_bind] at h
  obtain ⟨hpos, h⟩ := h
  obtain ⟨s₁, h1, h⟩ := bind_ok.1 h
  obtain ⟨s₂, h2, h⟩ := bind_ok.1 h
  obtain ⟨s₃, h3, h⟩ := bind_ok.1 h
  obtain ⟨s₄, h4, h⟩ := bind_ok.1 h
  simp only [usub_bind] at h
  exact ⟨s₁, s₂, s₃, s₄, hpos, h1, h2, h3, h4, h.2.2⟩

/-- a liquidation, whichever entry point it came through: the totals of its sequence, then the payments -/
structure LiquidationSteps (c : Config) (env : Env) (sender : Address) (s : System)
    (totals : ℕ → Bool → Res LiquidationSequence) (price : ℕ) (mode : Bool) (v : LiquidationSequence) (s' : System) :
    Prop where
  fetched : env.fetchPrice = .ok price
  recovery : checkRecoveryMode s price = .ok mode
  counted : totals price mode = .ok v
  sequence : ∃ debt coll, Sequence c (startSequence s debt coll) v
  finished : finishLiquidation c env sender v.s v.totals = .ok s'

section EntryPoints

variable {sender : Address} {v : LiquidationSequence} {troveArray : List Address}

theorem liquidateTroves_ok (h : liquidateTroves c env sender s n = .ok s') : ∃ price mode v,
    LiquidationSteps c env sender s (fun price mode => liquidateTrovesTotals c price s mode n) price mode v s' := by
  obtain ⟨price, hprice, h⟩ := bind_ok.1 h
  obtain ⟨mode, hmode, h⟩ := bind_ok.1 h
  obtain ⟨v, hv, h⟩ := bind_ok.1 h
  exact ⟨price, mode, v, hprice, hmode, hv, liquidateTrovesTotals_ok hv, h⟩

theorem batchLiquidateTroves_ok (h : batchLiquidateTroves c env sender s troveArray = .ok s') : ∃ price mode v,
    LiquidationSteps c env sender s (fun price mode => batchTotals c price s mode troveArray) price mode v s' := by
  simp only [batchLiquidateTroves, require_bind] at h
  obtain ⟨-, h⟩ := h
  obtain ⟨price, hprice, h⟩ := bind_ok.1 h
  obtain ⟨mode, hmode, h⟩ := bind_ok.1 h
  obtain ⟨v, hv, h⟩ := bind_ok.1 h
  exact ⟨price, mode, v, hprice, hmode, hv, batchTotals_ok hv, h⟩

theorem liquidate_ok (h : liquidate c env sender s borrower = .ok s') : ∃ price mode v,
    LiquidationSteps c env sender s (fun price mode => batchTotals c price s mode [borrower]) price mode v s' := by
  simp only [liquidate, requireTroveIsActive, require_bind] at h
  exact batchLiquidateTroves_ok h.2

end EntryPoints

/-! ## Redeeming from a trove -/

variable {maxSIMamount : ℕ} {hint : PartialRedemptionHint} {w : SingleRedemptionValues}

/-- the amounts of a redemption from one trove -/
structure RedeemedAmounts (s : System) (b : Address) (maxSIMamount price : ℕ) (w : SingleRedemptionValues) : Prop where
  SIMLot : w.SIMLot = min maxSIMamount (trove s b).debt
  WSTETHLot : w.WSTETHLot = w.SIMLot * DECIMAL_PRECISION / price
  price_pos : 0 < price
  coll_le : w.WSTETHLot ≤ (trove s b).coll

/-- a trove is paid off and closed, or its partial redemption is cancelled, or it is left with less debt -/
theorem redeemCollateralFromTrove_ok (h : redeemCollateralFromTrove c s borrower maxSIMamount price hint = .ok (s', w)) :
    RedeemedAmounts s borrower maxSIMamount price w ∧
      ((w.cancelledPartial = false ∧ w.SIMLot = (trove s borrower).debt ∧ ∃ s₁ s₂, clearStake s borrower = .ok s₁ ∧
          Shut s₁ s₂ borrower .closedByRedemption ∧
          redeemCloseTrove c s₂ borrower ((trove s borrower).coll - w.WSTETHLot) = .ok s') ∨
        (w.SIMLot < (trove s borrower).debt ∧ ∃ NICR,
          computeNominalCR ((trove s borrower).coll - w.WSTETHLot) ((trove s borrower).debt - w.SIMLot) = .ok NICR ∧
          ((w.cancelledPartial = true ∧ s' = s ∧
              (NICR ≠ hint.NICR ∨ (trove s borrower).debt - w.SIMLot < MIN_NET_DEBT)) ∨
            (w.cancelledPartial = false ∧ NICR = hint.NICR ∧ MIN_NET_DEBT ≤ (trove s borrower).debt - w.SIMLot ∧
              BorrowerOperations.Edited s s' borrower ((trove s borrower).coll - w.WSTETHLot)
                ((trove s borrower).debt - w.SIMLot))))) := by
  simp only [redeemCollateralFromTrove, umul_bind, udiv_bind, usub_bind] at h
  obtain ⟨-, hprice, hdebt, hcoll, h⟩ := h
  split_ifs at h with h0
  · obtain ⟨s₁, h1, h⟩ := bind_ok.1 h
    obtain ⟨s₂, h2, h⟩ := bind_ok.1 h
    obtain ⟨s₃, h3, h⟩ := bind_ok.1 h
    simp only [pure_ok, Prod.mk.injEq] at h
    obtain ⟨rfl, rfl⟩ := h
    refine ⟨⟨rfl, rfl, hprice, hcoll⟩, .inl ⟨rfl, by dsimp only; omega, s₁, s₂, h1, shutTrove_ok h2, h3⟩⟩
  · obtain ⟨NICR, hN, h⟩ := bind_ok.1 h
    split_ifs at h with hcancel
    · simp only [pure_ok, Prod.mk.injEq] at h
      obtain ⟨rfl, rfl⟩ := h
      exact ⟨⟨rfl, rfl, hprice, hcoll⟩, .inr ⟨by dsimp only; omega, NICR, hN, .inl ⟨rfl, rfl, hcancel⟩⟩⟩
    · obtain ⟨s₁, h1, h⟩ := bind_ok.1 h
      obtain ⟨s₂, h2, h⟩ := bind_ok.1 h
      simp only [pure_ok, Prod.mk.injEq] at h
      obtain ⟨rfl, rfl⟩ := h
      obtain ⟨list, hl, h1⟩ := bind_ok.1 h1
      cases h1
      rw [not_or, not_not, not_lt] at hcancel
      refine ⟨⟨rfl, rfl, hprice, hcoll⟩, .inr ⟨by dsimp only; omega, NICR, hN, .inr ⟨rfl, hcancel.1, hcancel.2, ?_⟩⟩⟩
      -- the node is moved first here, which makes no difference
      obtain ⟨stake, hs, hle, rfl⟩ := recomputeStake_ok h2
      simp only [writeTrove, trove, Function.update_self, stakedManager, Function.update_idem] at hs hle ⊢
      exact ⟨⟨stake, hs, hle, rfl⟩, ⟨_, NICR, _, _, fun _ _ => rfl, hN, hl⟩, rfl⟩

/-- one round of a redemption: the trove is settled in `s₁` and redeemed from in `s₂`; a cancelled one ends the walk -/
structure RedeemRound (c : Config) (price : ℕ) (hint : PartialRedemptionHint) (user : Address) (t : RedemptionTotals)
    (s₁ s₂ : System) (w : SingleRedemptionValues) (t₁ : RedemptionTotals) : Prop where
  settled : settlePendingRewards c t.s user = .ok s₁
  redeemed : redeemCollateralFromTrove c s₁ user t.remainingSIM price hint = .ok (s₂, w)
  counted : w.cancelledPartial = true ∧ t₁ = { t with s := s₂ } ∨
    w.cancelledPartial = false ∧ w.SIMLot ≤ t.remainingSIM ∧ t₁ =
      ⟨s₂, t.remainingSIM - w.SIMLot, t.totalSIMToRedeem + w.SIMLot, t.totalWSTETHDrawn + w.WSTETHLot⟩

theorem RedeemRound.after {user : Address} {t t₁ : RedemptionTotals} {s₁ s₂ : System}
    (h : RedeemRound c price hint user t s₁ s₂ w t₁) : t₁.s = s₂ := by
  obtain ⟨-, rfl⟩ | ⟨-, -, rfl⟩ := h.counted
  · rfl
  · rfl

/-- what every round of a redemption keeps, the walk keeps -/
theorem redeemLoop_rel {R : RedemptionTotals → RedemptionTotals → Prop} (refl : ∀ t, R t t)
    (trans : ∀ {t t₁ t₂}, R t t₁ → R t₁ t₂ → R t t₂)
    (round : ∀ {user t s₁ s₂ w t₁}, RedeemRound c price hint user t s₁ s₂ w t₁ → R t t₁) {rounds : ℕ} {user : Address}
    {t t' : RedemptionTotals} (h : redeemLoop c price hint rounds user t = .ok t') : R t t' := by
  induction rounds generalizing user t with
  | zero =>
    cases h
    exact refl _
  | succ rounds ih =>
    unfold redeemLoop at h
    by_cases hdone : user = 0 ∨ t.remainingSIM = 0
    · rw [if_pos hdone] at h
      cases h
      exact refl _
    rw [if_neg hdone] at h
    obtain ⟨s₁, h1, h⟩ := bind_ok.1 h
    obtain ⟨⟨s₂, w⟩, h2, h⟩ := bind_ok.1 h
    cases hcancel : w.cancelledPartial with
    | true =>
      simp only [hcancel, if_true, pure_ok] at h
      exact round ⟨h1, h2, .inl ⟨hcancel, h.symm⟩⟩
    | false =>
      simp only [hcancel, Bool.false_eq_true, if_false, uadd_bind, usub_bind] at h
      obtain ⟨-, -, hle, h⟩ := h
      exact trans (round ⟨h1, h2, .inr ⟨hcancel, hle, rfl⟩⟩) (ih h)

/-- what a redemption passes: its requirements, the first trove, the walk and the payments -/
structure RedeemSteps (c : Config) (env : Env) (sender : Address) (s : System) (a : RedeemArgs) (price supply : ℕ)
    (user : Address) (t : RedemptionTotals) (s' : System) : Prop where
  fetched : env.fetchPrice = .ok price
  amount_pos : 0 < a.SIMamount
  amount_le : a.SIMamount ≤ s.sim.balanceOf sender
  system : getEntireSystemDebt s = .ok supply
  first : firstBorrower s price a.firstRedemptionHint = .ok user
  loop : redeemLoop c price a.hint (iterationCap a.maxIterations) user
    { s, remainingSIM := a.SIMamount, totalSIMToRedeem := 0, totalWSTETHDrawn := 0 } = .ok t
  finish : finishRedemption c env sender price a.maxFeePercentage supply t = .ok s'

/-- the payments at the end of a redemption: the fee, the burn of the SIM redeemed, the collateral less the fee -/
structure RedemptionPayments (c : Config) (sender : Address) (t : RedemptionTotals) (fee : ℕ)
    (s₁ s₂ s₃ s₄ s' : System) : Prop where
  fee_le : fee ≤ t.totalWSTETHDrawn
  rate : ∃ r time, s₁ = { t.s with
    troveManager := { t.s.troveManager with baseRate := r, lastFeeOperationTime := time } }
  feeSent : ActivePool.sendWSTETH c c.troveManager s₁ c.wstETHVeDistributor fee = .ok s₂
  burned : SIMToken.burn c c.troveManager s₂ sender t.totalSIMToRedeem = .ok s₃
  cancelled : ActivePool.decreaseSIMDebt c c.troveManager s₃ t.totalSIMToRedeem = .ok s₄
  paid : ActivePool.sendWSTETH c c.troveManager s₄ sender (t.totalWSTETHDrawn - fee) = .ok s'

theorem finishRedemption_updated {sender : Address} {price maxFee supply : ℕ} {t : RedemptionTotals}
    (h : finishRedemption c env sender price maxFee supply t = .ok s') :
    ∃ fee s₁ s₂ s₃ s₄, updateBaseRateFromRedemption t.s t.totalWSTETHDrawn price supply env.timestamp = .ok s₁ ∧
      RedemptionPayments c sender t fee s₁ s₂ s₃ s₄ s' := by
  simp only [finishRedemption, require_bind] at h
  obtain ⟨-, h⟩ := h
  obtain ⟨s₁, h1, h⟩ := bind_ok.1 h
  obtain ⟨fee, -, h⟩ := bind_ok.1 h
  obtain ⟨_, -, h⟩ := bind_ok.1 h
  obtain ⟨s₂, h2, h⟩ := bind_ok.1 h
  obtain ⟨_, -, h⟩ := bind_ok.1 h
  simp only [usub_bind] at h
  obtain ⟨hle, h⟩ := h
  obtain ⟨s₃, h3, h⟩ := bind_ok.1 h
  obtain ⟨s₄, h4, h⟩ := bind_ok.1 h
  exact ⟨fee, s₁, s₂, s₃, s₄, h1, hle, updateBaseRateFromRedemption_ok h1, h2, h3, h4, h⟩

theorem finishRedemption_ok {sender : Address} {price maxFee supply : ℕ} {t : RedemptionTotals}
    (h : finishRedemption c env sender price maxFee supply t = .ok s') :
    ∃ fee s₁ s₂ s₃ s₄, RedemptionPayments c sender t fee s₁ s₂ s₃ s₄ s' := by
  obtain ⟨fee, s₁, s₂, s₃, s₄, -, hpaid⟩ := finishRedemption_updated h
  exact ⟨fee, s₁, s₂, s₃, s₄, hpaid⟩

theorem redeemCollateral_ok {sender : Address} {a : RedeemArgs} (h : redeemCollateral c env sender s a = .ok s') :
    ∃ price supply user t, RedeemSteps c env sender s a price supply user t s' := by
  obtain ⟨_, -, h⟩ := bind_ok.1 h
  obtain ⟨_, -, h⟩ := bind_ok.1 h
  obtain ⟨price, hprice, h⟩ := bind_ok.1 h
  obtain ⟨_, -, h⟩ := bind_ok.1 h
  simp only [require_bind] at h
  obtain ⟨hpos, hle, h⟩ := h
  obtain ⟨supply, hsupply, h⟩ := bind_ok.1 h
  simp only [assert_bind] at h
  obtain ⟨-, h⟩ := h
  obtain ⟨user, huser, h⟩ := bind_ok.1 h
  obtain ⟨t, hloop, h⟩ := bind_ok.1 h
  exact ⟨price, supply, user, t, hprice, hpos, hle, hsupply, huser, hloop, h⟩

end TroveManager

/-! ## Depositors of the Stability Pool -/

namespace StabilityPool

variable {sender : Address}

/-- a deposit: the pool's own call, the SIM received, and the gain paid out -/
structure ProvideSteps (c : Config) (sender : Address) (s : System) (amount issued : ℕ)
    (pool : SimContracts.StabilityPool.Pool) (payout : SimContracts.StabilityPool.Payout) (s₁ s' : System) : Prop where
  called : SimContracts.StabilityPool.provideToSP s.stabilityPool sender amount issued = .ok (pool, payout)
  received : SIMToken.sendToPool c c.stabilityPool s sender c.stabilityPool amount = .ok s₁
  paid : sendGain c { s₁ with stabilityPool := pool } sender payout.wsteth = .ok s'

theorem provideToSP_ok (h : provideToSP c env sender s amount = .ok s') :
    ∃ issued pool payout s₁, ProvideSteps c sender s amount issued pool payout s₁ s' := by
  obtain ⟨issued, -, h⟩ := bind_ok.1 h
  obtain ⟨⟨pool, payout⟩, hp, h⟩ := bind_ok.1 h
  obtain ⟨_, -, h⟩ := bind_ok.1 h
  obtain ⟨s₁, h1, h⟩ := bind_ok.1 h
  exact ⟨issued, pool, payout, s₁, hp, h1, h⟩

/-- a withdrawal: the pool's own call, the SIM sent back, and the gain paid out -/
structure WithdrawSteps (c : Config) (sender : Address) (s : System) (amount ICR issued : ℕ)
    (pool : SimContracts.StabilityPool.Pool) (payout : SimContracts.StabilityPool.Payout) (s₁ s' : System) : Prop where
  called : SimContracts.StabilityPool.withdrawFromSP s.stabilityPool sender amount issued ICR = .ok (pool, payout)
  sent : sendSIM c s sender payout.sim = .ok s₁
  paid : sendGain c { s₁ with stabilityPool := pool } sender payout.wsteth = .ok s'

theorem withdrawFromSP_ok (h : withdrawFromSP c env sender s amount = .ok s') :
    ∃ ICR issued pool payout s₁, WithdrawSteps c sender s amount ICR issued pool payout s₁ s' := by
  obtain ⟨ICR, -, h⟩ := bind_ok.1 h
  obtain ⟨issued, -, h⟩ := bind_ok.1 h
  obtain ⟨⟨pool, payout⟩, hp, h⟩ := bind_ok.1 h
  obtain ⟨_, -, h⟩ := bind_ok.1 h
  obtain ⟨s₁, h1, h⟩ := bind_ok.1 h
  exact ⟨ICR, issued, pool, payout, s₁, hp, h1, h⟩

end StabilityPool

end SimContracts.Protocol
