/-
Leaving the system. Closing a trove passes many subtractions, transfers and assertions of other contracts; in a reachable state
none of them fails. What is left are the documented conditions: the trove is open and not the last one, the system is in normal
mode and stays at CCR or more without the trove, and its owner has the SIM for the whole debt.

The debt and the collateral are those with the pending rewards, whose computation must not overflow. As in
`pendingRewards_backed`, no stake was raised over a hidden debt reward.

Results:
  close_iff   when `closeTrove` succeeds
-/
import SimContracts.Protocol.Modes
import SimContracts.Protocol.Rewards
import SimContracts.SortedTroves.Total

namespace SimContracts.Protocol

open Solidity TroveManager BorrowerOperations

variable {c : Config} {env : Env} {s s' s₁ : System} {a b sender : Address} {amount price : ℕ}

/-! ## Parts that succeed -/

/-- no contract of the protocol is at the zero address -/
theorem Config.pool_ne_zero (c : Config) {p : Address} (hp : p ∈ c.pools) : p ≠ 0 := by
  have h := c.distinct
  simp only [List.nodup_cons, List.mem_cons, not_or] at h
  simp only [Config.pools, List.mem_cons, List.not_mem_nil, or_false] at hp
  rintro rfl
  tauto

/-- rewards that the Default Pool has can be applied -/
theorem settlePendingRewards_succeeds {t : EntireTrove} (ht : getEntireDebtAndColl s b = .ok t)
    (hdebt : t.pendingSIMDebtReward ≤ s.defaultPool.SIMDebt) (hcoll : t.pendingWSTETHReward ≤ s.defaultPool.WSTETH)
    (htotalColl : systemColl s < 2 ^ 256) (htotalDebt : systemDebt s < 2 ^ 256)
    (hheld : s.defaultPool.WSTETH ≤ s.wsteth.balanceOf c.defaultPool) : ∃ s', settlePendingRewards c s b = .ok s' := by
  obtain ⟨pd, hpd, ht⟩ := bind_ok.1 ht
  obtain ⟨pw, hpw, ht⟩ := bind_ok.1 ht
  simp only [uadd_bind, pure_ok] at ht
  obtain ⟨hd, hw, rfl⟩ := ht
  dsimp only at hdebt hcoll
  unfold systemColl at htotalColl
  unfold systemDebt at htotalDebt
  unfold settlePendingRewards
  split_ifs with hhas
  · have hactive : (trove s b).status = .active := by
      rw [hasPendingRewards, decide_eq_true_eq] at hhas
      exact hhas.1
    obtain ⟨u, hu⟩ := ERC20.transfer_succeeds (c.pool_ne_zero (by simp [Config.pools] : c.defaultPool ∈ c.pools))
      (c.pool_ne_zero (by simp [Config.pools] : c.activePool ∈ c.pools)) (hcoll.trans hheld)
    simp only [requireTroveIsActive, require_bind, hpw, hpd, ok_bind, uadd_bind, movePendingTroveRewardsToActivePool,
      DefaultPool.decreaseSIMDebt, DefaultPool.requireCallerIsTroveManager, ActivePool.increaseSIMDebt,
      DefaultPool.sendWSTETHToActivePool, ActivePool.receiveWSTETH, usub_bind, bind_assoc, pure_bind, transferWSTETH,
      writeTroveRewardSnapshots, writeTrove, hu]
    exact ⟨_, hactive, hw, hd, trivial, hdebt, by simp, by omega, trivial, hcoll, by simp, by omega, rfl⟩
  · exact ⟨s, rfl⟩

theorem removeTroveOwner_succeeds (hclosed : (trove s b).status ≠ .nonExistent ∧ (trove s b).status ≠ .active)
    (hindex : (trove s b).arrayIndex < s.troveManager.TroveOwners.length) :
    ∃ s', removeTroveOwner s b s.troveManager.TroveOwners.length = .ok s' ∧ s'.sortedTroves = s.sortedTroves := by
  simp only [removeTroveOwner, assert_bind, usub_bind, inBounds_bind]
  exact ⟨_, ⟨hclosed, by omega, by omega, by omega, rfl⟩, rfl⟩

/-- an open trove that is not the last one can be taken out of all records -/
theorem shutTrove_succeeds (hreg : Registry s) (ho : Owners s) (hactive : (trove s b).status = .active)
    (hlen : 1 < s.troveManager.TroveOwners.length) {status : Status} (hstatus : status ≠ .nonExistent ∧ status ≠ .active) :
    ∃ s₁ s₂, clearStake s b = .ok s₁ ∧ shutTrove s₁ b status = .ok s₂ := by
  obtain ⟨ids, hchain, hids⟩ := hreg.list
  have hle : (trove s b).stake ≤ s.troveManager.totalStakes := hreg.totalStakes ▸ Ledger.le_sum (fun a => (trove s a).stake) b
  have hsize : 1 < SortedTroves.getSize s.sortedTroves := hreg.length_eq ho ▸ hlen
  have hindex : (trove s b).arrayIndex < s.troveManager.TroveOwners.length := ho.roster.index_lt ((ho.mem b).2 hactive)
  obtain ⟨list, hlist⟩ := SortedTroves.remove_succeeds hchain ((hids b).2 hactive)
  have hcleared : clearStake s b = .ok (writeStake s b 0 (s.troveManager.totalStakes - (trove s b).stake)) := by
    simp only [clearStake, usub_bind]
    exact ⟨hle, rfl⟩
  obtain ⟨s₂, hremoved, hkept⟩ := removeTroveOwner_succeeds (b := b)
    (s := writeClosed (writeStake s b 0 (s.troveManager.totalStakes - (trove s b).stake)) b status)
    (by simpa [trove, writeClosed, writeTrove, writeStake] using hstatus)
    (by simpa [trove, writeClosed, writeTrove, writeStake] using hindex)
  refine ⟨_, { s₂ with sortedTroves := list }, hcleared, ?_⟩
  exact assert_bind.2 ⟨hstatus, require_bind.2 ⟨⟨hlen, hsize⟩, bind_ok.2 ⟨s₂, hremoved, bind_ok.2 ⟨list, hkept ▸ hlist, rfl⟩⟩⟩⟩

theorem burnSIM_succeeds (ha : a ≠ 0) (hdebt : amount ≤ s.activePool.SIMDebt) (hbalance : amount ≤ s.sim.balanceOf a) :
    ∃ s', burnSIM c s a amount = .ok s' := by
  simp only [burnSIM, ActivePool.decreaseSIMDebt, ActivePool.requireCallerIsBOorTroveMorSP, SIMToken.burn, require_bind,
    usub_bind, bind_assoc, pure_bind, ERC20.burn]
  exact ⟨_, by simp, hdebt, by simp, ha, hbalance, rfl⟩

theorem sendWSTETH_succeeds (ha : a ∉ c.contracts) (hzero : a ≠ 0) (hcoll : amount ≤ s.activePool.WSTETH)
    (hheld : s.activePool.WSTETH ≤ s.wsteth.balanceOf c.activePool) :
    ∃ s', ActivePool.sendWSTETH c c.borrowerOperations s a amount = .ok s' := by
  obtain ⟨u, hu⟩ := ERC20.transfer_succeeds (c.pool_ne_zero (by simp [Config.pools] : c.activePool ∈ c.pools)) hzero
    (hcoll.trans hheld)
  have hdefault : a ≠ c.defaultPool := fun e => ha (by simp [Config.contracts, e])
  have hstability : a ≠ c.stabilityPool := fun e => ha (by simp [Config.contracts, e])
  have hsurplus : a ≠ c.collSurplusPool := fun e => ha (by simp [Config.contracts, e])
  simp only [ActivePool.sendWSTETH, ActivePool.requireCallerIsBOorTroveMorSP, require_bind, usub_bind, transferWSTETH, hu,
    ok_bind, pure_bind, ActivePool.notify, if_neg hdefault, if_neg hstability, if_neg hsurplus]
  exact ⟨_, by simp, hcoll, rfl⟩

/-! ## The condition -/

/-- what `closeTrove` asks of the caller: an open trove beside others, normal mode before and after, and the SIM to repay -/
structure Closable (s : System) (a : Address) (price : ℕ) : Prop where
  active : (trove s a).status = .active
  notLast : 1 < s.troveManager.TroveOwners.length
  mode : checkRecoveryMode s price = .ok false
  funds : settledDebt s a ≤ s.sim.balanceOf a
  ratio : ∃ newTCR, computeCR (systemColl s - settledColl s a) (systemDebt s - settledDebt s a) price = .ok newTCR ∧ CCR ≤ newTCR

theorem getNewTCR_removed {coll debt t : ℕ} : getNewTCRFromTroveChange s ⟨coll, false, debt, false⟩ price = .ok t ↔
    systemColl s < 2 ^ 256 ∧ systemDebt s < 2 ^ 256 ∧ coll ≤ systemColl s ∧ debt ≤ systemDebt s ∧
      computeCR (systemColl s - coll) (systemDebt s - debt) price = .ok t := by
  simp only [getNewTCRFromTroveChange, getEntireSystemColl, getEntireSystemDebt, changed, Bool.false_eq_true, if_false,
    uadd_bind, usub_bind, systemColl, systemDebt]

/-- the state in which the rewards of `a` were applied, the rest as it was -/
structure Prepared (c : Config) (s s₁ : System) (a : Address) : Prop where
  registry : Registry s₁
  owners : Owners s₁
  balanced : Balanced c s₁
  totals : SameTotals s s₁
  sim : s₁.sim = s.sim
  length : s₁.troveManager.TroveOwners.length = s.troveManager.TroveOwners.length
  status : (trove s₁ a).status = (trove s a).status
  coll : (trove s₁ a).coll = settledColl s a
  debt : (trove s₁ a).debt = settledDebt s a

/-- applying rewards leaves alone what is not an amount -/
theorem settlePendingRewards_same (h : settlePendingRewards c s a = .ok s₁) :
    s₁.sim = s.sim ∧ s₁.troveManager.TroveOwners = s.troveManager.TroveOwners ∧
      ∀ b, (trove s₁ b).status = (trove s b).status ∧ (trove s₁ b).arrayIndex = (trove s b).arrayIndex := by
  rcases settlePendingRewards_ok h with ⟨-, rfl⟩ | ⟨-, pw, pd, -, -, hmoved⟩
  · exact ⟨rfl, rfl, fun _ => ⟨rfl, rfl⟩⟩
  · obtain ⟨u, -, rfl⟩ := hmoved.state
    refine ⟨rfl, rfl, fun b => ?_⟩
    by_cases hb : b = a
    · subst hb
      simp [trove, settledManager]
    · simp [trove, settledManager, hb]

theorem settlePendingRewards_prepared (hreg : Registry s) (ho : Owners s) (hb : Balanced c s)
    (h : settlePendingRewards c s a = .ok s₁) : Prepared c s s₁ a := by
  have hsettled := settlePendingRewards_settled h
  obtain ⟨hsim, howners, hkept⟩ := settlePendingRewards_same h
  have hmoves : Moves c s ⟨none, 0⟩ s s₁ := settlePendingRewards_moves h
  exact ⟨hmoves.keeps (fun _ _ => move_registry) hreg, ho.congr howners hkept, (settlePendingRewards_posts h).balanced_zero hb,
    (settlePendingRewards_totals h).1, hsim, by rw [howners], (hkept a).1, hsettled.coll, hsettled.debt⟩

/-- a trove is a part of the Active Pool -/
theorem Balanced.trove_le (h : Balanced c s) (a : Address) :
    (trove s a).coll ≤ s.activePool.WSTETH ∧ (trove s a).debt ≤ s.activePool.SIMDebt := by
  have hcoll := h.coll
  have hdebt := h.debt
  simp only [gap] at hcoll hdebt
  have h1 := Ledger.le_sum (fun b => (s.troveManager.Troves b).coll) a
  have h2 := Ledger.le_sum (fun b => (s.troveManager.Troves b).debt) a
  simp only [trove]
  omega

/-- the total ratio without the trove, before or after its rewards are applied -/
theorem Prepared.ratio_iff (h : Prepared c s s₁ a) {mode : Bool} (hmode : checkRecoveryMode s price = .ok mode) {t : ℕ} :
    getNewTCRFromTroveChange s₁ ⟨(trove s₁ a).coll, false, (trove s₁ a).debt, false⟩ price = .ok t ↔
      computeCR (systemColl s - settledColl s a) (systemDebt s - settledDebt s a) price = .ok t := by
  obtain ⟨_, hTCR, -⟩ := checkRecoveryMode_ok hmode
  obtain ⟨hcoll, hdebt, -⟩ := getTCR_iff.1 hTCR
  obtain ⟨h1, h2⟩ := h.balanced.trove_le a
  have hcollPart : (trove s₁ a).coll ≤ systemColl s₁ := h1.trans (Nat.le_add_right _ _)
  have hdebtPart : (trove s₁ a).debt ≤ systemDebt s₁ := h2.trans (Nat.le_add_right _ _)
  rw [getNewTCR_removed, h.totals.coll, h.totals.debt] at *
  rw [← h.coll, ← h.debt]
  exact ⟨fun hx => hx.2.2.2.2, fun hx => ⟨hcoll, hdebt, hcollPart, hdebtPart, hx⟩⟩

theorem Prepared.closes (h : Prepared c s s₁ a) (ha : a ∉ c.contracts) (hzero : a ≠ 0) (hclosable : Closable s a price) :
    ∃ s₂ s₃ s₄ s', clearStake s₁ a = .ok s₂ ∧ shutTrove s₂ a .closedByOwner = .ok s₃ ∧
      burnSIM c s₃ a (trove s₁ a).debt = .ok s₄ ∧
      ActivePool.sendWSTETH c c.borrowerOperations s₄ a (trove s₁ a).coll = .ok s' := by
  obtain ⟨hcoll, hdebt⟩ := h.balanced.trove_le a
  have hheld := h.balanced.covered .activePool
  simp only [gap] at hheld
  obtain ⟨s₂, s₃, h2, h3⟩ := shutTrove_succeeds h.registry h.owners (h.status.trans hclosable.active)
    (h.length ▸ hclosable.notLast) (by decide : Status.closedByOwner ≠ .nonExistent ∧ Status.closedByOwner ≠ .active)
  have hrest := (shut_closed h2 (shutTrove_ok h3)).rest
  have hpool : s₃.activePool = s₁.activePool ∧ s₃.sim = s.sim ∧ s₃.wsteth = s₁.wsteth := by
    rw [hrest]
    exact ⟨rfl, h.sim, rfl⟩
  obtain ⟨s₄, h4⟩ := burnSIM_succeeds (c := c) hzero (hpool.1 ▸ hdebt) (hpool.2.1 ▸ h.debt ▸ hclosable.funds)
  have hburned : s₄.activePool.WSTETH = s₁.activePool.WSTETH ∧ s₄.wsteth = s₁.wsteth := by
    obtain ⟨s₅, h5, h6⟩ := bind_ok.1 h4
    obtain ⟨-, rfl⟩ := ActivePool.decreaseSIMDebt_ok h5
    obtain ⟨u, -, rfl⟩ := SIMToken.burn_ok h6
    exact ⟨by rw [← hpool.1], hpool.2.2⟩
  have hpaid : (trove s₁ a).coll ≤ s₄.activePool.WSTETH := hburned.1 ▸ hcoll
  obtain ⟨s', h5⟩ := sendWSTETH_succeeds ha hzero hpaid (by rw [hburned.1, hburned.2]; omega)
  exact ⟨s₂, s₃, s₄, s', h2, h3, h4, h5⟩

/-! ## Main result -/

/-- **When a trove can be closed.** In every reachable state in which the trove's rewards can be computed, `closeTrove` succeeds
exactly under the documented conditions. -/
theorem close_iff (c : Config) (calls : List (Tx c)) (hhidden : AlongOk (exec c) (NoHiddenReward c) (init c) calls)
    (hlen : calls.length ≤ 2 ^ 128) (env : Env) (price : ℕ) (hprice : env.fetchPrice = .ok price) (a : Account c)
    (ha : a.address ≠ 0) (t : EntireTrove) (ht : getEntireDebtAndColl (reached c calls) a.address = .ok t) :
    (∃ s', exec c (reached c calls) ⟨env, a, .closeTrove⟩ = .ok s') ↔ Closable (reached c calls) a.address price := by
  have hreg := reached_registry calls
  obtain ⟨ho, -⟩ := reached_owners calls hlen
  have hb := reached_balanced calls
  have hsim := reached_backed_SIMDebt calls hhidden
  have hwsteth := reached_backed_WSTETH calls
  generalize reached c calls = s at *
  constructor
  · rintro ⟨s', h⟩
    obtain ⟨price', s₁, s₂, s₃, s₄, hs⟩ := closeTrove_ok h
    cases hprice.symm.trans hs.fetched
    have hprepared := settlePendingRewards_prepared hreg ho hb hs.settled
    obtain ⟨newTCR, hnew, hCCR⟩ := hs.ratio
    have hclosed := shut_closed hs.unstaked hs.shut
    refine ⟨hs.active, hprepared.length ▸ hclosed.length, hs.mode, ?_, newTCR, (hprepared.ratio_iff hs.mode).1 hnew, hCCR⟩
    obtain ⟨s₅, h5, h6⟩ := bind_ok.1 hs.burned
    obtain ⟨-, rfl⟩ := ActivePool.decreaseSIMDebt_ok h5
    obtain ⟨u, hu, -⟩ := SIMToken.burn_ok h6
    obtain ⟨hle, -, -, -⟩ := ERC20.burn_ok hu
    rw [hprepared.debt, hclosed.rest] at hle
    dsimp only at hle
    rwa [hprepared.sim] at hle
  · intro hclosable
    obtain ⟨_, hTCR, -⟩ := checkRecoveryMode_ok hclosable.mode
    obtain ⟨hcoll, hdebt, -⟩ := getTCR_iff.1 hTCR
    obtain ⟨hpd, hpw, -, -⟩ := getEntireDebtAndColl_ok ht
    have hheld := hb.covered .defaultPool
    simp only [gap] at hheld
    obtain ⟨s₁, h1⟩ := settlePendingRewards_succeeds (c := c) ht (hsim.le_pool hpd) (hwsteth.le_pool hpw) hcoll hdebt
      (by omega)
    have hprepared := settlePendingRewards_prepared hreg ho hb h1
    obtain ⟨newTCR, hratio, hCCR⟩ := hclosable.ratio
    obtain ⟨s₂, s₃, s₄, s', h2, h3, h4, h5⟩ := hprepared.closes a.outside ha hclosable
    refine ⟨s', ?_⟩
    have hnew := (hprepared.ratio_iff hclosable.mode).2 hratio
    simp only [exec, BorrowerOperations.closeTrove, requireTroveisActive, requireNotInRecoveryMode, hclosable.mode, ok_bind,
      require_bind, hprice, applyPendingRewards, requireCallerIsBorrowerOperations, removeStake, TroveManager.closeTrove,
      bind_assoc, h1, requireSufficientSIMBalance, hnew, requireNewTCRisAboveCCR, h2, h3, h4]
    refine ⟨hclosable.active, trivial, trivial, ?_, hCCR, trivial, trivial, h5⟩
    rw [hprepared.debt, hprepared.sim]
    exact hclosable.funds

/-- Alice has enough SIM to repay what she borrowed and the fee -/
def aliceFunded : List (Tx exampleConfig) := twoTroves ++ [atPrice (2000 * 10 ^ 18) bob (.transferSIM 1 (10 ^ 18))]

theorem close_iff_aliceFunded : ∃ s', exec exampleConfig (reached exampleConfig aliceFunded)
    (atPrice (2000 * 10 ^ 18) alice .closeTrove) = .ok s' := by
  obtain ⟨t, ht⟩ : ∃ t, getEntireDebtAndColl (reached exampleConfig aliceFunded) 1 = .ok t :=
    Res.failure_none (by decide +kernel)
  have hclosable : Closable (reached exampleConfig aliceFunded) 1 (2000 * 10 ^ 18) :=
    ⟨by decide +kernel, by decide +kernel, by decide +kernel, by decide +kernel, 100 * (2000 * 10 ^ 18) / 1005,
      by decide +kernel, by decide +kernel⟩
  exact (close_iff exampleConfig aliceFunded (by decide +kernel) (by decide) _ (2000 * 10 ^ 18) rfl alice (by decide) t ht).2
    hclosable

end SimContracts.Protocol
