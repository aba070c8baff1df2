/-
What stops a liquidation. A liquidation passes the rewards, stakes and records of every trove, the arithmetic of the Stability
Pool, a redistribution and transfers from three pools; each of them can revert. In a reachable state almost none does: what is
left are the documented refusals, the price feed and the issuance, which are outside, and arithmetic panics.

Two conditions come from known defects: a stake may have been rounded to zero, and the product `P` may have left its range. In
states without them no assertion, no division, no list operation and no token transfer fails.

Results:
  liquidation_failures      what a liquidation of any troves can fail for
  liquidate_never_refused   a single trove below 110% that is not the last one, in normal mode: none of the refusals either
-/
import SimContracts.Protocol.Closing
import SimContracts.Protocol.Eligible
import SimContracts.Protocol.Offsets
import SimContracts.Protocol.Stakes
import SimContracts.Protocol.Batches
import SimContracts.StabilityPool.Product

namespace SimContracts.StabilityPool

open Solidity

variable {s : Pool} {R : Revert → Prop}

/-! ## The pool's part -/

theorem failsFor_triggerSHADYIssuance (hR : R (.panic 0x11)) (s : Pool) (issued : ℕ) :
    FailsFor R (triggerSHADYIssuance s issued) := by
  unfold triggerSHADYIssuance updateG
  split_ifs with h0
  · exact .ok _
  · refine .bind ?_ fun _ _ => .bind (failsFor_umul hR _ _) fun _ _ => .bind (failsFor_uadd hR _ _) fun _ _ => .pure _
    exact .bind (failsFor_umul hR _ _) fun _ _ => .bind (failsFor_uadd hR _ _) fun _ _ =>
      .bind (failsFor_udiv (by omega)) fun _ _ => .bind (failsFor_umul hR _ _) fun _ _ =>
      .bind (failsFor_usub hR _ _) fun _ _ => .pure _

theorem failsFor_computeRewardsPerUnitStaked (hR : R (.panic 0x11)) {totalSIM : ℕ} (hpos : 0 < totalSIM) (s : Pool)
    (coll debt : ℕ) (hle : debt ≤ totalSIM) : FailsFor R (computeRewardsPerUnitStaked s coll debt totalSIM) := by
  refine .bind (failsFor_umul hR _ _) fun _ _ => .bind (failsFor_uadd hR _ _) fun _ _ =>
    .bind (failsFor_assert hle) fun _ _ => .bind ?_ fun _ _ => .bind (failsFor_udiv hpos) fun _ _ =>
    .bind (failsFor_umul hR _ _) fun _ _ => .bind (failsFor_usub hR _ _) fun _ _ => .pure _
  unfold computeSIMLossPerUnitStaked
  split_ifs
  · exact .ok _
  · exact .bind (failsFor_umul hR _ _) fun _ _ => .bind (failsFor_usub hR _ _) fun _ _ =>
      .bind (failsFor_udiv hpos) fun _ _ => .bind (failsFor_uadd hR _ _) fun _ _ =>
      .bind (failsFor_umul hR _ _) fun _ _ => .bind (failsFor_usub hR _ _) fun _ _ => .pure _

/-- in its range the product can not fall to zero in one offset -/
theorem updateProduct_pos (hr : InRange s) {f p scale epoch : ℕ} (h : updateProduct s f = .ok (p, scale, epoch)) : 0 < p := by
  have hmin := hr.min
  unfold updateProduct at h
  split_ifs at h with h0
  · obtain ⟨_, -, h⟩ := bind_ok.1 h
    cases h
    decide
  · simp only [umul_bind, udiv_bind] at h
    obtain ⟨-, -, h⟩ := h
    split_ifs at h with hlt
    · simp only [umul_bind, udiv_bind] at h
      obtain ⟨-, -, -, h⟩ := h
      obtain ⟨_, -, h⟩ := bind_ok.1 h
      cases h
      refine Nat.div_pos ?_ (by decide)
      calc DECIMAL_PRECISION = SCALE_FACTOR * 1 * SCALE_FACTOR := by decide
        _ ≤ s.P * f * SCALE_FACTOR := Nat.mul_le_mul_right _ (Nat.mul_le_mul hmin (Nat.pos_of_ne_zero h0))
    · cases h
      exact lt_of_lt_of_le (by decide) (Nat.le_of_not_lt hlt)

theorem failsFor_updateRewardSumAndProduct (hR : R (.panic 0x11)) (hr : InRange s) {gain loss : ℕ}
    (hloss : loss ≤ DECIMAL_PRECISION) : FailsFor R (updateRewardSumAndProduct s gain loss) := by
  unfold updateRewardSumAndProduct
  refine .bind (failsFor_assert hloss) fun _ _ => .bind (failsFor_usub hR _ _) fun f _ =>
    .bind (failsFor_umul hR _ _) fun _ _ => .bind (failsFor_uadd hR _ _) fun _ _ => .bind ?_ fun r hp => ?_
  · unfold updateProduct
    split_ifs
    · exact .bind (failsFor_uadd128 hR _ _) fun _ _ => .pure _
    · refine .bind (failsFor_umul hR _ _) fun _ _ => .bind (failsFor_udiv (by decide)) fun _ _ => ?_
      split_ifs
      · exact .bind (failsFor_umul hR _ _) fun _ _ => .bind (failsFor_umul hR _ _) fun _ _ =>
          .bind (failsFor_udiv (by decide)) fun _ _ => .bind (failsFor_uadd128 hR _ _) fun _ _ => .pure _
      · exact .pure _
  · obtain ⟨newP, scale, epoch⟩ := r
    exact .bind (failsFor_assert (updateProduct_pos hr hp)) fun _ _ => .pure _

/-- what the rewards of an offset leave of the pool they were computed for -/
theorem rewarded_range (hr : InRange s) {issued coll debt gain loss : ℕ} {s₁ s₂ : Pool}
    (h1 : triggerSHADYIssuance s issued = .ok s₁)
    (h2 : computeRewardsPerUnitStaked s₁ coll debt s.totalSIMDeposits = .ok (gain, loss, s₂)) :
    InRange s₂ ∧ loss ≤ DECIMAL_PRECISION := by
  obtain ⟨e, G, rfl⟩ := triggerSHADYIssuance_ok h1
  obtain ⟨hle, -, -, rfl, le, -, rfl⟩ := computeRewardsPerUnitStaked_ok h2
  refine ⟨⟨hr.min, hr.max⟩, ?_⟩
  by_cases hall : debt = s.totalSIMDeposits
  · exact (if_pos hall).le
  · exact simLoss_le (lt_of_le_of_ne hle hall)

end SimContracts.StabilityPool

namespace SimContracts.Protocol

open Solidity TroveManager

variable {c : Config} {env : Env} {s s' s₁ : System} {a b sender : Address} {price ICR : ℕ} {v v' : LiquidationSequence}
  {R : Revert → Prop}

/-! ## Reasons -/

/-- the one refusal that a sequence can meet -/
def onlyOneTrove : Revert := .error "TroveManager: Only one trove in the system"

/-- what a liquidation can fail for -/
inductive LiquidationFailure (env : Env) : Revert → Prop where
  | noTroves : LiquidationFailure env (.error "TroveManager: Calldata address array must not be empty")
  | notActive : LiquidationFailure env (.error "TroveManager: Trove does not exist or is closed")
  | nothingToLiquidate : LiquidationFailure env (.error "TroveManager: nothing to liquidate")
  | onlyOne : LiquidationFailure env onlyOneTrove
  | arithmetic : LiquidationFailure env (.panic 0x11)
  | priceFeed (e : Revert) (h : env.fetchPrice = .error e) : LiquidationFailure env e
  | issuance (e : Revert) (h : env.issueSHADY = .error e) : LiquidationFailure env e

/-- what it can fail for once the trove is found to be liquidated -/
inductive PaymentFailure (env : Env) : Revert → Prop where
  | arithmetic : PaymentFailure env (.panic 0x11)
  | issuance (e : Revert) (h : env.issueSHADY = .error e) : PaymentFailure env e

/-! ## Parts -/

theorem failsFor_computeCR (hR : R (.panic 0x11)) (coll debt price : ℕ) : FailsFor R (computeCR coll debt price) := by
  unfold computeCR
  split_ifs with hpos
  · exact .bind (failsFor_umul hR _ _) fun _ _ => failsFor_udiv hpos
  · exact .ok _

theorem failsFor_pendingReward (hR : R (.panic 0x11)) (L snapshot : ℕ) (t : Trove) :
    FailsFor R (pendingReward L snapshot t) := by
  refine .bind (failsFor_usub hR _ _) fun _ _ => ?_
  split_ifs
  · exact .pure _
  · exact .bind (failsFor_umul hR _ _) fun _ _ => failsFor_udiv (by decide)

theorem failsFor_getEntireDebtAndColl (hR : R (.panic 0x11)) (s : System) (b : Address) :
    FailsFor R (getEntireDebtAndColl s b) :=
  .bind (failsFor_pendingReward hR _ _ _) fun _ _ => .bind (failsFor_pendingReward hR _ _ _) fun _ _ =>
    .bind (failsFor_uadd hR _ _) fun _ _ => .bind (failsFor_uadd hR _ _) fun _ _ => .pure _

theorem failsFor_getCurrentICR (hR : R (.panic 0x11)) (s : System) (b : Address) (price : ℕ) :
    FailsFor R (getCurrentICR s b price) := by
  refine .bind ?_ fun _ _ => failsFor_computeCR hR _ _ _
  exact .bind (failsFor_pendingReward hR _ _ _) fun _ _ => .bind (failsFor_pendingReward hR _ _ _) fun _ _ =>
    .bind (failsFor_uadd hR _ _) fun _ _ => .bind (failsFor_uadd hR _ _) fun _ _ => .pure _

/-- a pool that has its tokens can send them -/
theorem failsFor_transferWSTETH {src dst : Address} {amount : ℕ} (hsrc : src ≠ 0) (hdst : dst ≠ 0)
    (hle : amount ≤ s.wsteth.balanceOf src) : FailsFor R (transferWSTETH s src dst amount) := by
  obtain ⟨u, hu⟩ := ERC20.transfer_succeeds hsrc hdst hle
  refine .of_succeeds ⟨{ s with wsteth := u }, ?_⟩
  rw [transferWSTETH, hu]
  rfl

theorem failsFor_sendWSTETH (hR : R (.panic 0x11)) {caller account : Address} {amount : ℕ}
    (hcaller : caller = c.borrowerOperations ∨ caller = c.troveManager ∨ caller = c.stabilityPool) (haccount : account ≠ 0)
    (hheld : s.activePool.WSTETH ≤ s.wsteth.balanceOf c.activePool) :
    FailsFor R (ActivePool.sendWSTETH c caller s account amount) := by
  refine .bind (failsFor_require (.inl hcaller)) fun _ _ => .bind (failsFor_usub hR _ _) fun _ hsub =>
    .bind (failsFor_transferWSTETH (c.pool_ne_zero (by simp [Config.pools])) haccount
      ((usub_ok.1 hsub).1.trans hheld)) fun _ _ => ?_
  unfold ActivePool.notify
  split_ifs
  · exact .bind (failsFor_require (.inl rfl)) fun _ _ => .bind (failsFor_uadd hR _ _) fun _ _ => .pure _
  · exact .bind (failsFor_require (.inl rfl)) fun _ _ =>
      .bind (.bind (failsFor_uadd hR _ _) fun _ _ => .pure _) fun _ _ => .pure _
  · exact .bind (failsFor_require (.inl rfl)) fun _ _ => .bind (failsFor_uadd hR _ _) fun _ _ => .pure _
  · exact .ok _

theorem failsFor_decreaseSIMDebt (hR : R (.panic 0x11)) {caller : Address} {amount : ℕ}
    (hcaller : caller = c.borrowerOperations ∨ caller = c.troveManager ∨ caller = c.stabilityPool) :
    FailsFor R (ActivePool.decreaseSIMDebt c caller s amount) :=
  .bind (failsFor_require (.inl hcaller)) fun _ _ => .bind (failsFor_usub hR _ _) fun _ _ => .pure _

theorem failsFor_movePending (hR : R (.panic 0x11)) {SIM WSTETH : ℕ}
    (hheld : s.defaultPool.WSTETH ≤ s.wsteth.balanceOf c.defaultPool) :
    FailsFor R (movePendingTroveRewardsToActivePool c s SIM WSTETH) := by
  refine .bind (.bind (failsFor_require (.inl rfl)) fun _ _ => .bind (failsFor_usub hR _ _) fun _ _ => .pure _) fun s₁ h1 => ?_
  refine .bind (.bind (failsFor_require (.inl (.inr rfl))) fun _ _ => .bind (failsFor_uadd hR _ _) fun _ _ => .pure _)
    fun s₂ h2 => ?_
  obtain ⟨-, rfl⟩ := DefaultPool.decreaseSIMDebt_ok h1
  obtain rfl := ActivePool.increaseSIMDebt_ok h2
  refine .bind (failsFor_require (.inl rfl)) fun _ _ => .bind (failsFor_usub hR _ _) fun _ hsub =>
    .bind (failsFor_transferWSTETH (c.pool_ne_zero (by simp [Config.pools])) (c.pool_ne_zero (by simp [Config.pools]))
      ((usub_ok.1 hsub).1.trans hheld)) fun _ _ => ?_
  exact .bind (failsFor_require (.inl (.inr rfl))) fun _ _ => .bind (failsFor_uadd hR _ _) fun _ _ => .pure _

theorem failsFor_getOffsetAndRedistributionVals (hR : R (.panic 0x11)) {debt coll SIMInStabPool : ℕ} (hdebt : 0 < debt) :
    FailsFor R (getOffsetAndRedistributionVals debt coll SIMInStabPool) := by
  unfold getOffsetAndRedistributionVals
  split_ifs
  · exact .bind (failsFor_umul hR _ _) fun _ _ => .bind (failsFor_udiv hdebt) fun _ _ =>
      .bind (failsFor_usub hR _ _) fun _ _ => .bind (failsFor_usub hR _ _) fun _ _ => .pure _
  · exact .ok _

theorem failsFor_addLiquidationValues (hR : R (.panic 0x11)) (t : LiquidationTotals) (w : LiquidationValues) :
    FailsFor R (addLiquidationValuesToTotals t w) := by
  refine .bind (failsFor_uadd hR _ _) fun _ _ => .bind (failsFor_uadd hR _ _) fun _ _ => ?_
  refine .bind (failsFor_uadd hR _ _) fun _ _ => .bind (failsFor_uadd hR _ _) fun _ _ => ?_
  refine .bind (failsFor_uadd hR _ _) fun _ _ => .bind (failsFor_uadd hR _ _) fun _ _ => ?_
  exact .bind (failsFor_uadd hR _ _) fun _ _ => .bind (failsFor_uadd hR _ _) fun _ _ => .pure _

/-! ## One trove -/

/-- what the steps of a liquidation need of the state -/
structure Fit (c : Config) (s : System) : Prop where
  registry : Registry s
  owners : Owners s
  activePool : s.activePool.WSTETH ≤ s.wsteth.balanceOf c.activePool
  defaultPool : s.defaultPool.WSTETH ≤ s.wsteth.balanceOf c.defaultPool

/-- only an open trove has a ratio -/
theorem active_of_ICR (hreg : Registry s) (hICR : getCurrentICR s b price = .ok ICR) (hlt : ICR < uintMax) :
    (trove s b).status = .active := by
  by_contra hclosed
  obtain ⟨x, hx, hICR⟩ := bind_ok.1 hICR
  obtain ⟨pw, pd, -, hpd, rfl⟩ := getCurrentTroveAmounts_ok hx
  have hzero : pd = 0 := by
    obtain ⟨_, -, hpd⟩ := bind_ok.1 hpd
    rw [if_pos (.inr hclosed)] at hpd
    exact (pure_ok.1 hpd).symm
  have hval := computeCR_ok hICR
  rw [hzero, (hreg.idle b hclosed).2.1] at hval
  simp at hval
  omega

/-- an open trove can be closed unless it is the last one -/
theorem failsFor_shutTrove (hone : R onlyOneTrove ∨ 1 < s.troveManager.TroveOwners.length) (hreg : Registry s) (ho : Owners s)
    (hactive : (trove s b).status = .active) {status : Status} (hstatus : status ≠ .nonExistent ∧ status ≠ .active) {s₂ : System}
    (hclear : clearStake s b = .ok s₂) : FailsFor R (shutTrove s₂ b status) := by
  by_cases hlen : 1 < s.troveManager.TroveOwners.length
  · obtain ⟨_, s₃, hclear', hshut⟩ := shutTrove_succeeds hreg ho hactive hlen hstatus
    rw [hclear] at hclear'
    cases hclear'
    exact .of_succeeds ⟨s₃, hshut⟩
  · have howners : s₂.troveManager.TroveOwners = s.troveManager.TroveOwners := by
      obtain ⟨-, rfl⟩ := clearStake_ok hclear
      rfl
    refine .bind (failsFor_assert hstatus) fun _ _ => .bind (failsFor_require (.inr (hone.resolve_right hlen))) fun _ hreq => ?_
    exact absurd (howners ▸ (require_ok.1 hreq).1) hlen

/-- also after its rewards were moved -/
theorem failsFor_shutMoved (hone : R onlyOneTrove ∨ 1 < s.troveManager.TroveOwners.length) (hfit : Fit c s)
    (hactive : (trove s b).status = .active) {pd pw : ℕ} {s₂ : System} (hmoved : TroveManager.Moved c s s₁ pd pw)
    (hclear : clearStake s₁ b = .ok s₂) : FailsFor R (shutTrove s₂ b .closedByLiquidation) := by
  obtain ⟨htm, hlist⟩ := hmoved.same
  exact failsFor_shutTrove (htm ▸ hone) (hfit.registry.congr (by rw [htm]) (by rw [htm]) hlist)
    (hfit.owners.congr (by rw [htm]) fun a => by simp [trove, htm]) (by simpa [trove, htm] using hactive) (by decide) hclear

theorem failsFor_clearStake (hR : R (.panic 0x11)) (s : System) (b : Address) : FailsFor R (clearStake s b) :=
  .bind (failsFor_usub hR _ _) fun _ _ => .pure _

theorem failsFor_liquidateNormalMode (hR : R (.panic 0x11)) (hone : R onlyOneTrove ∨ 1 < s.troveManager.TroveOwners.length)
    (hfit : Fit c s) (hICR : getCurrentICR s b price = .ok ICR) (hlt : ICR < uintMax) (SIMInStabPool : ℕ) :
    FailsFor R (liquidateNormalMode c s b SIMInStabPool) := by
  have hactive := active_of_ICR hfit.registry hICR hlt
  refine .bind (failsFor_getEntireDebtAndColl hR s b) fun t ht => .bind ?_ fun s₂ hcollect => ?_
  · exact .bind (failsFor_movePending hR hfit.defaultPool) fun _ _ => failsFor_clearStake hR _ _
  · obtain ⟨s₁, hmoved, hclear⟩ := bind_ok.1 hcollect
    have hshut := failsFor_shutMoved hone hfit hactive (movePendingTroveRewardsToActivePool_ok hmoved) hclear
    exact .bind (failsFor_usub hR _ _) fun _ _ =>
      .bind (failsFor_getOffsetAndRedistributionVals hR (entireDebt_pos hICR hlt ht)) fun _ _ => .bind hshut fun _ _ => .pure _

theorem failsFor_accountCollSurplus (hR : R (.panic 0x11)) (s : System) (b : Address) (amount : ℕ) :
    FailsFor R (accountCollSurplus c s b amount) := by
  unfold accountCollSurplus
  split_ifs
  · exact .bind (failsFor_require (.inl rfl)) fun _ _ => .bind (failsFor_uadd hR _ _) fun _ _ => .pure _
  · exact .ok _

/-- a ratio that is not zero has a price that is not zero -/
theorem price_pos_of_ICR (hICR : getCurrentICR s b price = .ok ICR) (hpos : 0 < ICR) (hlt : ICR < uintMax) : 0 < price := by
  obtain ⟨x, -, hICR⟩ := bind_ok.1 hICR
  have hval := computeCR_ok hICR
  refine Nat.pos_of_ne_zero fun h0 => ?_
  split_ifs at hval
  · rw [h0, Nat.mul_zero, Nat.zero_div] at hval
    omega
  · omega

theorem failsFor_getCappedOffsetVals (hR : R (.panic 0x11)) (hprice : 0 < price) (debt coll : ℕ) :
    FailsFor R (getCappedOffsetVals debt coll price) :=
  .bind (failsFor_umul hR _ _) fun _ _ => .bind (failsFor_udiv hprice) fun _ _ => .bind (failsFor_usub hR _ _) fun _ _ =>
    .bind (failsFor_usub hR _ _) fun _ _ => .pure _

theorem failsFor_liquidateRecoveryMode (hR : R (.panic 0x11)) (hfit : Fit c s) (hICR : getCurrentICR s b price = .ok ICR)
    {TCR : ℕ} (hTCR : TCR ≤ uintMax) (SIMInStabPool : ℕ) :
    FailsFor R (liquidateRecoveryMode c s b ICR SIMInStabPool TCR price) := by
  unfold liquidateRecoveryMode
  by_cases hlast : s.troveManager.TroveOwners.length ≤ 1
  · rw [if_pos hlast]
    exact .ok _
  rw [if_neg hlast]
  have hone : R onlyOneTrove ∨ 1 < s.troveManager.TroveOwners.length := .inr (Nat.lt_of_not_le hlast)
  have hcollect : ∀ x y, FailsFor R (movePendingTroveRewardsToActivePool c s x y) :=
    fun _ _ => failsFor_movePending hR hfit.defaultPool
  have hshut : ICR < uintMax → ∀ {x y s₁ s₂}, movePendingTroveRewardsToActivePool c s x y = .ok s₁ →
      clearStake s₁ b = .ok s₂ → FailsFor R (shutTrove s₂ b .closedByLiquidation) :=
    fun hlt _ _ _ _ hmoved hclear => failsFor_shutMoved hone hfit (active_of_ICR hfit.registry hICR hlt)
      (movePendingTroveRewardsToActivePool_ok hmoved) hclear
  refine .bind (failsFor_getEntireDebtAndColl hR s b) fun t ht => .bind (failsFor_usub hR _ _) fun _ _ => ?_
  split_ifs with h1 h2 h3
  · have hlt : ICR < uintMax := lt_of_le_of_lt h1 (by decide)
    refine .bind (.bind (hcollect _ _) fun _ _ => failsFor_clearStake hR _ _) fun s₂ hs₂ => ?_
    obtain ⟨s₁, hmoved, hclear⟩ := bind_ok.1 hs₂
    exact .bind (hshut hlt hmoved hclear) fun _ _ => .pure _
  · have hlt : ICR < uintMax := h2.trans (by decide)
    refine .bind (.bind (hcollect _ _) fun _ _ => failsFor_clearStake hR _ _) fun s₂ hs₂ => ?_
    obtain ⟨s₁, hmoved, hclear⟩ := bind_ok.1 hs₂
    exact .bind (failsFor_getOffsetAndRedistributionVals hR (entireDebt_pos hICR hlt ht)) fun _ _ =>
      .bind (hshut hlt hmoved hclear) fun _ _ => .pure _
  · -- the pool has all of the debt, so it is not empty
    have hlt : ICR < uintMax := by omega
    have hpos : 0 < ICR := lt_of_lt_of_le (by decide) (Nat.le_of_not_lt h2)
    have hdebt := entireDebt_pos hICR hlt ht
    exact .bind (hcollect _ _) fun s₁ hmoved => .bind (failsFor_assert (by omega)) fun _ _ =>
      .bind (failsFor_clearStake hR _ _) fun s₂ hclear =>
      .bind (failsFor_getCappedOffsetVals hR (price_pos_of_ICR hICR hpos hlt) _ _) fun _ _ =>
      .bind (hshut hlt hmoved hclear) fun _ _ => .bind (failsFor_accountCollSurplus hR _ _ _) fun _ _ => .pure _
  · exact .ok _

theorem failsFor_normalStep (hR : R (.panic 0x11)) (hone : R onlyOneTrove ∨ 1 < v.s.troveManager.TroveOwners.length)
    (hfit : Fit c v.s) (hICR : getCurrentICR v.s b price = .ok ICR) (hlt : ICR < uintMax) : FailsFor R (normalStep c b v) :=
  .bind (failsFor_liquidateNormalMode hR hone hfit hICR hlt _) fun _ _ => .bind (failsFor_usub hR _ _) fun _ _ =>
    .bind (failsFor_addLiquidationValues hR _ _) fun _ _ => .pure _

theorem failsFor_recoveryStep (hR : R (.panic 0x11)) (hfit : Fit c v.s) (hICR : getCurrentICR v.s b price = .ok ICR) :
    FailsFor R (recoveryStep c price b ICR v) := by
  refine .bind (failsFor_computeCR hR _ _ _) fun TCR hTCR =>
    .bind (failsFor_liquidateRecoveryMode hR hfit hICR (computeCR_le_uintMax hTCR) _) fun _ _ =>
    .bind (failsFor_usub hR _ _) fun _ _ => .bind (failsFor_usub hR _ _) fun _ _ => .bind (failsFor_usub hR _ _) fun _ _ =>
    .bind (failsFor_usub hR _ _) fun _ _ => .bind (failsFor_usub hR _ _) fun _ _ =>
    .bind (failsFor_addLiquidationValues hR _ _) fun _ _ => .bind ?_ fun _ _ => .pure _
  exact .bind (failsFor_computeCR hR _ _ _) fun _ _ => .pure _

/-! ## A sequence -/

/-- the records and the list of owners, after a trove was liquidated -/
theorem TroveManager.Liquidated.owners {w : LiquidationValues} {SIMInStabPool : ℕ} (h : Liquidated c s s' b w SIMInStabPool)
    (hreg : Registry s) (ho : Owners s) : Owners s' := by
  obtain ⟨-, hactive, -⟩ := h.closes hreg
  obtain ⟨t, s₁, s₂, s₃, -, -, -, hmoved, hstake, hshut, hsurplus⟩ := h.steps
  obtain ⟨htm, -⟩ := hmoved.same
  have ho₁ : Owners s₁ := ho.congr (by rw [htm]) fun a => by simp [trove, htm]
  have hactive₁ : (trove s₁ b).status = .active := by simpa [trove, htm] using hactive
  obtain ⟨r, t, htm'⟩ := (accountCollSurplus_frame hsurplus).troveManager
  exact (ho₁.closed hactive₁ (shut_closed hstake hshut)).congr (by rw [htm']) fun a => by simp [trove, htm']

theorem sequence_owners (h : Sequence c v v') (hreg : Registry v.s) (ho : Owners v.s) : Registry v'.s ∧ Owners v'.s := by
  induction h with
  | refl => exact ⟨hreg, ho⟩
  | tail _ hstep ih =>
    obtain ⟨user, single, hstep⟩ := hstep
    rcases hstep.state with ⟨hs, -⟩ | ⟨-, hl⟩
    · exact hs ▸ ih
    · exact ⟨(hl.closes ih.1).1, hl.owners ih.1 ih.2⟩

/-- a sequence that starts with balanced books always meets such a state -/
theorem sequence_fit {debt coll : ℕ} (hreg : Registry s) (ho : Owners s) (hb : Balanced c s)
    (h : Sequence c (startSequence s debt coll) v) : Fit c v.s := by
  obtain ⟨-, -, hposts⟩ := sequence_posts h (Added.zero s.stabilityPool.totalSIMDeposits) ⟨rfl, rfl, rfl⟩
  obtain ⟨-, hgap⟩ := hposts hb.sound
  have hactive := hgap .activePool
  have hdefault := hgap .defaultPool
  have h1 := hb.covered .activePool
  have h2 := hb.covered .defaultPool
  simp only [gap, entry, startSequence] at hactive hdefault h1 h2
  obtain ⟨hreg', ho'⟩ := sequence_owners h hreg ho
  exact ⟨hreg', ho', by omega, by omega⟩

theorem failsFor_liquidateTrovesRecoveryLoop (hR : R (.panic 0x11)) (hone : R onlyOneTrove) {n : ℕ} {user first : Address}
    (hfit : ∀ w, Sequence c v w → Fit c w.s) : FailsFor R (liquidateTrovesRecoveryLoop c price first n user v) := by
  induction n generalizing user v with
  | zero => exact .ok _
  | succ n ih =>
    have hnow := hfit v .refl
    rw [liquidateTrovesRecoveryLoop]
    by_cases hfirst : user = first
    · rw [if_pos hfirst]
      exact .ok _
    rw [if_neg hfirst]
    refine .bind (failsFor_getCurrentICR hR _ _ _) fun ICR hICR => ?_
    split_ifs with hback hstop hlow
    · exact .pure _
    · exact .bind (failsFor_recoveryStep hR hnow hICR) fun v₁ hv₁ =>
        ih fun w hw => hfit w (Sequence.cons (recoveryStep_ok hv₁ hICR) hw)
    · exact .bind (failsFor_normalStep hR (.inl hone) hnow hICR (hlow.trans (by decide))) fun v₁ hv₁ =>
        ih fun w hw => hfit w (Sequence.cons (normalStep_ok hv₁ hICR hlow) hw)
    · exact .pure _

theorem failsFor_liquidateTrovesNormalLoop (hR : R (.panic 0x11)) (hone : R onlyOneTrove) {n : ℕ}
    (hfit : ∀ w, Sequence c v w → Fit c w.s) : FailsFor R (liquidateTrovesNormalLoop c price n v) := by
  induction n generalizing v with
  | zero => exact .ok _
  | succ n ih =>
    refine .bind (failsFor_getCurrentICR hR _ _ _) fun ICR hICR => ?_
    split_ifs with hlow
    · exact .bind (failsFor_normalStep hR (.inl hone) (hfit v .refl) hICR (hlow.trans (by decide))) fun v₁ hv₁ =>
        ih fun w hw => hfit w (Sequence.cons (normalStep_ok hv₁ hICR hlow) hw)
    · exact .pure _

theorem failsFor_batchRecoveryLoop (hR : R (.panic 0x11)) (hone : R onlyOneTrove) {users : List Address}
    (hfit : ∀ w, Sequence c v w → Fit c w.s) : FailsFor R (batchRecoveryLoop c price users v) := by
  induction users generalizing v with
  | nil => exact .ok _
  | cons user users ih =>
    have hnow := hfit v .refl
    rw [batchRecoveryLoop]
    by_cases hactive : (trove v.s user).status ≠ .active
    · rw [if_pos hactive]
      exact ih hfit
    rw [if_neg hactive]
    refine .bind (failsFor_getCurrentICR hR _ _ _) fun ICR hICR => ?_
    split_ifs with hback hskip hlow
    · exact ih hfit
    · exact .bind (failsFor_recoveryStep hR hnow hICR) fun v₁ hv₁ =>
        ih fun w hw => hfit w (Sequence.cons (recoveryStep_ok hv₁ hICR) hw)
    · exact .bind (failsFor_normalStep hR (.inl hone) hnow hICR (hlow.trans (by decide))) fun v₁ hv₁ =>
        ih fun w hw => hfit w (Sequence.cons (normalStep_ok hv₁ hICR hlow) hw)
    · exact ih hfit

theorem failsFor_batchNormalLoop (hR : R (.panic 0x11)) (hone : R onlyOneTrove) {users : List Address}
    (hfit : ∀ w, Sequence c v w → Fit c w.s) : FailsFor R (batchNormalLoop c price users v) := by
  induction users generalizing v with
  | nil => exact .ok _
  | cons user users ih =>
    refine .bind (failsFor_getCurrentICR hR _ _ _) fun ICR hICR => ?_
    split_ifs with hlow
    · exact .bind (failsFor_normalStep hR (.inl hone) (hfit v .refl) hICR (hlow.trans (by decide))) fun v₁ hv₁ =>
        ih fun w hw => hfit w (Sequence.cons (normalStep_ok hv₁ hICR hlow) hw)
    · exact ih hfit

/-! ## The payments at the end -/

theorem failsFor_offset (hR : R (.panic 0x11)) (hissue : ∀ e, env.issueSHADY = .error e → R e)
    (hr : SimContracts.StabilityPool.InRange s.stabilityPool) {debt coll : ℕ} (hle : debt ≤ s.stabilityPool.totalSIMDeposits)
    (hdeposits : s.stabilityPool.totalSIMDeposits ≤ s.sim.balanceOf c.stabilityPool)
    (hheld : s.activePool.WSTETH ≤ s.wsteth.balanceOf c.activePool) :
    FailsFor R (StabilityPool.offset c env c.troveManager s debt coll) := by
  refine .bind (failsFor_require (.inl rfl)) fun _ _ => ?_
  by_cases h0 : s.stabilityPool.totalSIMDeposits = 0 ∨ debt = 0
  · rw [if_pos h0]
    exact .pure _
  rw [if_neg h0]
  have htotal : 0 < s.stabilityPool.totalSIMDeposits := by omega
  refine .bind hissue fun issued _ => .bind (SimContracts.StabilityPool.failsFor_triggerSHADYIssuance hR _ _) fun pool₁ h1 =>
    .bind (SimContracts.StabilityPool.failsFor_computeRewardsPerUnitStaked hR htotal _ _ _ hle) fun r h2 => ?_
  obtain ⟨gain, loss, pool₂⟩ := r
  obtain ⟨hr₂, hloss⟩ := SimContracts.StabilityPool.rewarded_range hr h1 h2
  refine .bind (SimContracts.StabilityPool.failsFor_updateRewardSumAndProduct hR hr₂ hloss) fun pool₃ _ =>
    .bind (failsFor_decreaseSIMDebt hR (.inr (.inr rfl))) fun s₁ hs₁ =>
    .bind (.bind (failsFor_usub hR _ _) fun _ _ => .pure _) fun pool₄ _ => ?_
  obtain ⟨-, rfl⟩ := ActivePool.decreaseSIMDebt_ok hs₁
  have hpool : c.stabilityPool ≠ 0 := c.pool_ne_zero (by simp [Config.pools])
  refine .bind (.bind (failsFor_require (.inl (.inr (.inr rfl)))) fun _ _ =>
    .bind (.bind (failsFor_require (.inl hpool)) fun _ _ => .bind (failsFor_require (.inl (hle.trans hdeposits))) fun _ _ =>
      .pure _) fun _ _ => .pure _) fun s₂ hs₂ => ?_
  obtain ⟨t, -, rfl⟩ := SIMToken.burn_ok hs₂
  exact failsFor_sendWSTETH hR (.inr (.inr rfl)) hpool hheld

theorem failsFor_perUnitStaked (hR : R (.panic 0x11)) {amount lastError totalStakes : ℕ} (hpos : 0 < totalStakes) :
    FailsFor R (perUnitStaked amount lastError totalStakes) :=
  .bind (failsFor_umul hR _ _) fun _ _ => .bind (failsFor_uadd hR _ _) fun _ _ => .bind (failsFor_udiv hpos) fun _ _ =>
    .bind (failsFor_umul hR _ _) fun _ _ => .bind (failsFor_usub hR _ _) fun _ _ => .pure _

theorem failsFor_redistributeDebtAndColl (hR : R (.panic 0x11)) (hstakes : 0 < s.troveManager.totalStakes)
    (hheld : s.activePool.WSTETH ≤ s.wsteth.balanceOf c.activePool) (debt coll : ℕ) :
    FailsFor R (redistributeDebtAndColl c s debt coll) := by
  unfold redistributeDebtAndColl
  split_ifs with h0
  · exact .ok _
  refine .bind ?_ fun s₁ hs₁ => .bind (failsFor_decreaseSIMDebt hR (.inr (.inl rfl))) fun s₂ hs₂ =>
    .bind (.bind (failsFor_require (.inl rfl)) fun _ _ => .bind (failsFor_uadd hR _ _) fun _ _ => .pure _) fun s₃ hs₃ => ?_
  · exact .bind (failsFor_perUnitStaked hR hstakes) fun _ _ => .bind (failsFor_perUnitStaked hR hstakes) fun _ _ =>
      .bind (failsFor_uadd hR _ _) fun _ _ => .bind (failsFor_uadd hR _ _) fun _ _ => .pure _
  · obtain ⟨_, -, h⟩ := bind_ok.1 hs₁
    obtain ⟨_, -, h⟩ := bind_ok.1 h
    simp only [uadd_bind, pure_ok] at h
    obtain ⟨-, -, rfl⟩ := h
    obtain ⟨-, rfl⟩ := ActivePool.decreaseSIMDebt_ok hs₂
    obtain rfl := DefaultPool.increaseSIMDebt_ok hs₃
    exact failsFor_sendWSTETH hR (.inr (.inl rfl)) (c.pool_ne_zero (by simp [Config.pools])) hheld

/-- the Active Pool has what it records, and nobody else can take it -/
def Covered (c : Config) (s : System) : Prop := Sound c s ∧ 0 ≤ gap c s .activePool

theorem Covered.held (h : Covered c s) : s.activePool.WSTETH ≤ s.wsteth.balanceOf c.activePool := by
  have hgap := h.2
  simp only [gap] at hgap
  omega

theorem Posts.covered {p q w x : ℤ} (h : Posts c s s' (entry p q w x)) (hs : Covered c s) : Covered c s' := by
  obtain ⟨hsound, hk⟩ := h hs.1
  exact ⟨hsound, by rw [hk]; exact (add_zero (gap c s .activePool)).symm ▸ hs.2⟩

theorem redistributeDebtAndColl_covered {debt coll : ℕ} (h : redistributeDebtAndColl c s debt coll = .ok s')
    (hs : Covered c s) : Covered c s' := by
  rcases redistributeDebtAndColl_ok h with ⟨-, rfl⟩ | ⟨-, hred⟩
  · exact hs
  · exact (redistributed_posts hred).covered hs

theorem failsFor_finishLiquidation (hR : R (.panic 0x11)) (hissue : ∀ e, env.issueSHADY = .error e → R e)
    {t : LiquidationTotals} {remaining : ℕ}
    (hnothing : R (.error "TroveManager: nothing to liquidate") ∨ 0 < t.totalDebtInSequence)
    (hr : SimContracts.StabilityPool.InRange s.stabilityPool) (hs : Covered c s) (hdeposits : gap c s .deposits = 0)
    (ht : Added t remaining s.stabilityPool.totalSIMDeposits)
    (hstakes : 0 < t.totalDebtInSequence → 0 < s.troveManager.totalStakes) (hsender : sender ≠ 0) :
    FailsFor R (finishLiquidation c env sender s t) := by
  have hle : t.totalDebtToOffset ≤ s.stabilityPool.totalSIMDeposits := by
    have := ht.deposits
    omega
  have hbooked : s.stabilityPool.totalSIMDeposits ≤ s.sim.balanceOf c.stabilityPool := by
    simp only [gap] at hdeposits
    omega
  refine .bind (failsFor_require hnothing.symm) fun _ hpos => ?_
  refine .bind (failsFor_offset hR hissue hr hle hbooked hs.held) fun s₁ h1 => ?_
  have hs₁ : Covered c s₁ := (offset_posts h1 (by omega) ht.offset).covered hs
  obtain ⟨_, _, htm⟩ := (offset_frame h1).troveManager
  have hstakes₁ : 0 < s₁.troveManager.totalStakes := by
    rw [htm]
    exact hstakes (require_ok.1 hpos)
  refine .bind (failsFor_redistributeDebtAndColl hR hstakes₁ hs₁.held _ _) fun s₂ h2 => ?_
  have hs₂ : Covered c s₂ := redistributeDebtAndColl_covered h2 hs₁
  refine .bind ?_ fun s₃ h3 => .bind (.bind (failsFor_usub hR _ _) fun _ _ => .bind (failsFor_uadd hR _ _) fun _ _ => .pure _)
    fun s₄ h4 => .bind (failsFor_usub hR _ _) fun _ _ => .bind (failsFor_usub hR _ _) fun _ _ => ?_
  · unfold sendCollSurplus
    split_ifs
    · exact failsFor_sendWSTETH hR (.inr (.inl rfl)) (c.pool_ne_zero (by simp [Config.pools])) hs₂.held
    · exact .ok _
  · have hs₃ : Covered c s₃ := by
      unfold sendCollSurplus at h3
      split_ifs at h3
      · exact (sendWSTETH_posts h3 (Ne.symm c.ne.2.2.1)).covered hs₂
      · cases h3
        exact hs₂
    obtain ⟨-, rfl⟩ := updateSystemSnapshots_ok h4
    unfold sendGasCompensation
    split_ifs
    · exact failsFor_sendWSTETH hR (.inr (.inl rfl)) hsender hs₃.held
    · exact .ok _

/-! ## The entry points -/

/-- the invariants of the protocol, and that neither the stakes nor the product of the Stability Pool are lost -/
structure Healthy (c : Config) (s : System) : Prop where
  registry : Registry s
  owners : Owners s
  balanced : Balanced c s
  staked : Staked s
  product : SimContracts.StabilityPool.InRange s.stabilityPool

theorem failsFor_totalStart (hR : R (.panic 0x11)) {f : ℕ → ℕ → Res LiquidationSequence}
    (hf : ∀ debt coll, FailsFor R (f debt coll)) :
    FailsFor R (do f (← getEntireSystemDebt s) (← getEntireSystemColl s)) :=
  .bind (failsFor_uadd hR _ _) fun _ _ => .bind (failsFor_uadd hR _ _) fun _ _ => hf _ _

theorem failsFor_liquidateTrovesTotals (hR : R (.panic 0x11)) (hone : R onlyOneTrove) (h : Healthy c s) (mode : Bool) (n : ℕ) :
    FailsFor R (liquidateTrovesTotals c price s mode n) := by
  have hfit : ∀ debt coll w, Sequence c (startSequence s debt coll) w → Fit c w.s :=
    fun _ _ _ hw => sequence_fit h.registry h.owners h.balanced hw
  unfold liquidateTrovesTotals
  split_ifs
  · exact failsFor_totalStart hR fun debt coll => failsFor_liquidateTrovesRecoveryLoop hR hone (hfit debt coll)
  · exact failsFor_liquidateTrovesNormalLoop hR hone (hfit 0 0)

theorem failsFor_batchTotals (hR : R (.panic 0x11)) (hone : R onlyOneTrove) (h : Healthy c s) (mode : Bool)
    (troveArray : List Address) : FailsFor R (batchTotals c price s mode troveArray) := by
  have hfit : ∀ debt coll w, Sequence c (startSequence s debt coll) w → Fit c w.s :=
    fun _ _ _ hw => sequence_fit h.registry h.owners h.balanced hw
  unfold batchTotals
  split_ifs
  · exact failsFor_totalStart hR fun debt coll => failsFor_batchRecoveryLoop hR hone (hfit debt coll)
  · exact failsFor_batchNormalLoop hR hone (hfit 0 0)

theorem failsFor_checkRecoveryMode (hR : R (.panic 0x11)) (s : System) (price : ℕ) :
    FailsFor R (checkRecoveryMode s price) := by
  refine .bind ?_ fun _ _ => .pure _
  exact .bind (failsFor_uadd hR _ _) fun _ _ => .bind (failsFor_uadd hR _ _) fun _ _ => failsFor_computeCR hR _ _ _

/-- what a sequence has liquidated can be paid -/
theorem failsFor_payments (hR : R (.panic 0x11)) (hissue : ∀ e, env.issueSHADY = .error e → R e) (h : Healthy c s)
    {debt coll : ℕ} (hseq : Sequence c (startSequence s debt coll) v)
    (hnothing : R (.error "TroveManager: nothing to liquidate") ∨ 0 < v.totals.totalDebtInSequence) (hsender : sender ≠ 0) :
    FailsFor R (finishLiquidation c env sender v.s v.totals) := by
  obtain ⟨hadded, hpool⟩ := sequence_added hseq
  obtain ⟨-, -, hposts⟩ := sequence_posts hseq (Added.zero s.stabilityPool.totalSIMDeposits) ⟨rfl, rfl, rfl⟩
  have hdeposits : gap c v.s .deposits = 0 := by
    rw [(hposts h.balanced.sound).2]
    exact (add_zero _).trans h.balanced.deposits
  have hcovered : Covered c v.s := hposts.covered ⟨h.balanced.sound, h.balanced.covered _⟩
  refine failsFor_finishLiquidation hR hissue hnothing (hpool ▸ h.product) hcovered hdeposits hadded (fun hpos => ?_) hsender
  -- one trove is left after the first was closed, and it has a stake
  obtain ⟨hreg, hstaked⟩ := sequence_staked hseq ⟨h.registry, h.staked⟩ rfl
  have hmoves : Moves c s ⟨none, 0⟩ s v.s ∧ (v.totals.totalDebtInSequence ≠ 0 → v.s.sortedTroves.size ≠ 0) :=
    liquidated_moves hseq rfl
  obtain ⟨b, hb⟩ := hreg.exists_active (hmoves.2 (by omega))
  exact hstaked.totalStakes_pos hreg hb

theorem reached_healthy (calls : List (Tx c)) (hlen : calls.length ≤ 2 ^ 128) (hstaked : Staked (reached c calls))
    (hproduct : SimContracts.StabilityPool.InRange (reached c calls).stabilityPool) : Healthy c (reached c calls) :=
  ⟨reached_registry calls, (reached_owners calls hlen).1, reached_balanced calls, hstaked, hproduct⟩

theorem Healthy.liquidation_failsFor {tx : Tx c} (h : Healthy c s) (hcall : tx.call.isLiquidation = true)
    (hsender : tx.sender.address ≠ 0) : FailsFor (LiquidationFailure tx.env) (exec c s tx) := by
  have hnothing {t : LiquidationTotals} : LiquidationFailure tx.env (.error "TroveManager: nothing to liquidate") ∨
      0 < t.totalDebtInSequence := .inl .nothingToLiquidate
  have hbatch : ∀ troveArray, FailsFor (LiquidationFailure tx.env)
      (batchLiquidateTroves c tx.env tx.sender.address s troveArray) := fun troveArray =>
    .bind (failsFor_require (.inr .noTroves)) fun _ _ => .bind .priceFeed fun price _ =>
      .bind (failsFor_checkRecoveryMode .arithmetic s price) fun mode _ =>
      .bind (failsFor_batchTotals .arithmetic .onlyOne h mode troveArray) fun v hv => by
        obtain ⟨debt, coll, hseq⟩ := batchTotals_ok hv
        exact failsFor_payments .arithmetic .issuance h hseq hnothing hsender
  obtain ⟨env, sender, call⟩ := tx
  cases call with
  | liquidate borrower => exact .bind (failsFor_require (.inr .notActive)) fun _ _ => hbatch [borrower]
  | liquidateTroves n =>
    refine .bind .priceFeed fun price _ => .bind (failsFor_checkRecoveryMode .arithmetic s price) fun mode _ =>
      .bind (failsFor_liquidateTrovesTotals .arithmetic .onlyOne h mode n) fun v hv => ?_
    obtain ⟨debt, coll, hseq⟩ := liquidateTrovesTotals_ok hv
    exact failsFor_payments .arithmetic .issuance h hseq hnothing hsender
  | batchLiquidateTroves troveArray => exact hbatch troveArray
  | _ => cases hcall

/-- a trove below MCR that is not the last one is liquidated in normal mode, up to arithmetic and the issuance -/
theorem Healthy.liquidate_failsFor (h : Healthy c s) (hprice : env.fetchPrice = .ok price)
    (hmode : checkRecoveryMode s price = .ok false) (hactive : (trove s b).status = .active)
    (hICR : getCurrentICR s b price = .ok ICR) (hlow : ICR < MCR) (hothers : 1 < s.troveManager.TroveOwners.length)
    (hsender : sender ≠ 0) : FailsFor (PaymentFailure env) (liquidate c env sender s b) := by
  have hfit : Fit c s := sequence_fit (v := startSequence s 0 0) h.registry h.owners h.balanced .refl
  refine .bind (failsFor_require (.inl hactive)) fun _ _ => .bind (failsFor_require (.inl (by simp))) fun _ _ => ?_
  rw [hprice, ok_bind, hmode, ok_bind]
  have htotals : batchTotals c price s false [b] = normalStep c b (startSequence s 0 0) := by
    rw [batchTotals, if_neg (by decide), batchNormalLoop, show (startSequence s 0 0).s = s from rfl, hICR, ok_bind, if_pos hlow]
    exact bind_pure _
  rw [htotals]
  refine .bind (failsFor_normalStep .arithmetic (.inr hothers) hfit hICR (hlow.trans (by decide))) fun v hv => ?_
  obtain ⟨single, hstep⟩ := normalStep_ok hv hICR hlow
  refine failsFor_payments .arithmetic .issuance h (Relation.ReflTransGen.single ⟨b, single, hstep⟩) (.inr ?_) hsender
  obtain ⟨⟨s₁, w⟩, h1, h2⟩ := bind_ok.1 hv
  have hpos := (liquidateNormalMode_ok h1).entireDebt_pos hICR (hlow.trans (by decide))
  simp only [usub_bind] at h2
  obtain ⟨-, h2⟩ := h2
  obtain ⟨totals, htotals, h2⟩ := bind_ok.1 h2
  cases h2
  rw [addLiquidationValuesToTotals_ok htotals]
  exact Nat.add_pos_right _ hpos

/-! ## Main results -/

/-- **Why a liquidation fails.** In every reachable state in which no stake was rounded to zero and the product of the Stability
Pool is in its range, a liquidation of any troves fails only for one of the documented refusals, an arithmetic overflow or
underflow, the price feed or the issuance: no assertion, no division, no list operation and no transfer fails. -/
theorem liquidation_failures (c : Config) (calls : List (Tx c)) (hlen : calls.length ≤ 2 ^ 128)
    (hstaked : Staked (reached c calls)) (hproduct : SimContracts.StabilityPool.InRange (reached c calls).stabilityPool)
    (tx : Tx c) (hcall : tx.call.isLiquidation = true) (hsender : tx.sender.address ≠ 0) :
    FailsFor (LiquidationFailure tx.env) (exec c (reached c calls) tx) :=
  (reached_healthy calls hlen hstaked hproduct).liquidation_failsFor hcall hsender

/-- Alice can be liquidated, but the issuance of SHADY runs out of gas -/
def noIssuance : Tx exampleConfig := ⟨{ atThousand with issueSHADY := .error .outOfGas }, bob, .liquidate 1⟩

/-- the call passes its checks and counts what it liquidates; the offset asks for the issuance and fails for that reason -/
theorem liquidation_failures_noIssuance :
    Res.failure (exec exampleConfig (reached exampleConfig twoInPool) noIssuance) = some .outOfGas ∧
      LiquidationFailure noIssuance.env .outOfGas := by
  have hfails : Res.failure (exec exampleConfig (reached exampleConfig twoInPool) noIssuance) = some .outOfGas := by
    decide +kernel
  refine ⟨hfails, ?_⟩
  cases h : exec exampleConfig (reached exampleConfig twoInPool) noIssuance with
  | ok s' =>
    rw [h] at hfails
    cases hfails
  | error e =>
    rw [h] at hfails
    obtain rfl : e = .outOfGas := Option.some.inj hfails
    exact liquidation_failures exampleConfig twoInPool (by decide) (reached_staked twoInPool (by decide +kernel))
      ⟨by decide +kernel, by decide +kernel⟩ noIssuance rfl (by decide) _ h

/-- **A trove below 110% can be liquidated.** In every such state anybody can liquidate it in normal mode while another trove is
open: what can stop the call are arithmetic and the issuance. -/
theorem liquidate_never_refused (c : Config) (calls : List (Tx c)) (hlen : calls.length ≤ 2 ^ 128)
    (hstaked : Staked (reached c calls)) (hproduct : SimContracts.StabilityPool.InRange (reached c calls).stabilityPool)
    (env : Env) (price : ℕ) (hprice : env.fetchPrice = .ok price)
    (hmode : checkRecoveryMode (reached c calls) price = .ok false)
    (b : Address) (hactive : (trove (reached c calls) b).status = .active) (ICR : ℕ)
    (hICR : getCurrentICR (reached c calls) b price = .ok ICR) (hlow : ICR < MCR)
    (hothers : 1 < (reached c calls).troveManager.TroveOwners.length) (sender : Account c) (hsender : sender.address ≠ 0) :
    FailsFor (PaymentFailure env) (exec c (reached c calls) ⟨env, sender, .liquidate b⟩) :=
  (reached_healthy calls hlen hstaked hproduct).liquidate_failsFor hprice hmode hactive hICR hlow hothers hsender

/-- Bob can liquidate Alice -/
theorem liquidate_never_refused_alice :
    FailsFor (PaymentFailure atThousand)
      (exec exampleConfig (reached exampleConfig twoInPool) ⟨atThousand, bob, .liquidate 1⟩) := by
  obtain ⟨ICR, hICR⟩ : ∃ ICR, getCurrentICR (reached exampleConfig twoInPool) 1 (1000 * 10 ^ 18) = .ok ICR :=
    Res.failure_none (by decide +kernel)
  have hlow : (getCurrentICR (reached exampleConfig twoInPool) 1 (1000 * 10 ^ 18)).shown < MCR := by decide +kernel
  rw [hICR] at hlow
  exact liquidate_never_refused exampleConfig twoInPool (by decide) (reached_staked twoInPool (by decide +kernel))
    ⟨by decide +kernel, by decide +kernel⟩ atThousand (1000 * 10 ^ 18) rfl (by decide +kernel) 1 (by decide +kernel) ICR hICR
    hlow (by decide +kernel) bob (by decide)

end SimContracts.Protocol
