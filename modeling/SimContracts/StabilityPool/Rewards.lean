/-
SHADY gains of the Stability Pool, together with the issuance contract that pays them.

Every depositor call and every offset first asks the issuance contract for what has been issued since the last time, and
spreads it over the deposits at that moment: `perUnit * P` is added to the sum `G` of the current epoch and scale. So the
exact gain of a deposit grows by `perUnit` for each unit of its exact share, as with the collateral, and all gains
together grow by what was issued, less the error carried on. The issuance contract sends out what the depositors are
shown, and keeps what it has not issued yet.

`Rewarded` is the pool with the contracts around the SHADY token, under any interleaving of the pool's own calls with
those of everybody else.

Results:
  IssuanceStep.gain_le   an issuance adds to each gain at most its share
  rewards_covered        along offsets that charge their debt in full, the issuance contract has what it has not issued
                         and all gains shown, so it can pay every depositor
-/
import SimContracts.Shady.Issuance
import SimContracts.StabilityPool.Gains

namespace SimContracts.StabilityPool

open Solidity

variable {s s' s₁ : Pool}

/-! ## Issuance -/

/-- an issuance that spreads `given` over the pool, of what was issued -/
structure IssuanceStep (s s' : Pool) (perUnit given : ℕ) : Prop where
  /-- what is spread and the error carried on is what was given and the error carried so far -/
  spread : perUnit * s.totalSIMDeposits + s'.lastSHADYError = given * DECIMAL_PRECISION + s.lastSHADYError
  sum : s'.epochToScaleToG = write s.epochToScaleToG s.currentEpoch s.currentScale
    (s.epochToScaleToG s.currentEpoch s.currentScale + perUnit * s.P)
  rest : s' = { s with lastSHADYError := s'.lastSHADYError, epochToScaleToG := s'.epochToScaleToG }

/-- writing what is there already changes nothing -/
theorem write_same (m : ℕ → ℕ → ℕ) (epoch scale : ℕ) : write m epoch scale (m epoch scale) = m := by
  simp [write]

/-- everything that was issued is spread, or nothing of it if the pool is empty -/
theorem triggerSHADYIssuance_step {issued : ℕ} (h : triggerSHADYIssuance s issued = .ok s') :
    ∃ perUnit given, given ≤ issued ∧ IssuanceStep s s' perUnit given := by
  unfold triggerSHADYIssuance updateG at h
  split_ifs at h with hskip
  · cases h
    refine ⟨0, 0, Nat.zero_le _, by simp, ?_, rfl⟩
    rw [Nat.zero_mul, Nat.add_zero, write_same]
  · obtain ⟨⟨perUnit, s₁⟩, hspread, h⟩ := bind_ok.1 h
    simp only [computeSHADYPerUnitStaked, umul_bind, uadd_bind, udiv_bind, usub_bind, pure_ok, Prod.mk.injEq] at hspread
    obtain ⟨-, -, -, -, hle, rfl, rfl⟩ := hspread
    simp only [umul_bind, uadd_bind, pure_ok] at h
    obtain ⟨-, -, rfl⟩ := h
    exact ⟨_, issued, le_rfl, Nat.add_sub_of_le hle, rfl, rfl⟩

/-- what a successful depositor call does with SHADY: it issues, then pays the caller's gain -/
structure DepositorPaid (s s' : Pool) (a : Address) (issued shady : ℕ) : Prop where
  issuance : ∃ s₁, triggerSHADYIssuance s issued = .ok s₁ ∧ getDepositorSHADYGain s₁ a = .ok shady ∧
    s'.epochToScaleToG = s₁.epochToScaleToG ∧ s'.lastSHADYError = s₁.lastSHADYError

theorem provideToSP_paid {a : Address} {amount issued : ℕ} {p : Payout}
    (h : provideToSP s a amount issued = .ok (s', p)) : DepositorPaid s s' a issued p.shady := by
  simp only [provideToSP, require_bind] at h
  obtain ⟨-, h⟩ := h
  obtain ⟨s₁, hissued, h⟩ := bind_ok.1 h
  obtain ⟨_, -, h⟩ := bind_ok.1 h
  obtain ⟨_, -, h⟩ := bind_ok.1 h
  obtain ⟨_, -, h⟩ := bind_ok.1 h
  obtain ⟨shady, hshady, h⟩ := bind_ok.1 h
  simp only [receiveSIM, bind_ok, uadd_ok, pure_ok, Prod.mk.injEq] at h
  obtain ⟨_, ⟨_, ⟨-, rfl⟩, rfl⟩, _, ⟨-, rfl⟩, s₂, h2, rfl, rfl⟩ := h
  obtain ⟨-, rfl⟩ := sendWSTETHGainToDepositor_ok h2
  exact ⟨s₁, hissued, hshady, rfl, rfl⟩

theorem withdrawFromSP_paid {a : Address} {amount issued lowestICR : ℕ} {p : Payout}
    (h : withdrawFromSP s a amount issued lowestICR = .ok (s', p)) : DepositorPaid s s' a issued p.shady := by
  simp only [withdrawFromSP, requireUserHasDeposit, require_bind] at h
  obtain ⟨-, -, h⟩ := h
  obtain ⟨s₁, hissued, h⟩ := bind_ok.1 h
  obtain ⟨_, -, h⟩ := bind_ok.1 h
  obtain ⟨_, -, h⟩ := bind_ok.1 h
  obtain ⟨_, -, h⟩ := bind_ok.1 h
  obtain ⟨shady, hshady, h⟩ := bind_ok.1 h
  obtain ⟨s₂, h2, h⟩ := bind_ok.1 h
  obtain ⟨-, rfl⟩ := sendSIMToDepositor_ok h2
  simp only [usub_bind] at h
  obtain ⟨s₃, h3, h⟩ := bind_ok.1 h.2
  obtain ⟨-, rfl⟩ := sendWSTETHGainToDepositor_ok h3
  cases h
  exact ⟨s₁, hissued, hshady, rfl, rfl⟩

theorem withdrawWSTETHGainToTrove_paid {a : Address} {issued troveStatus : ℕ} {p : Payout}
    (h : withdrawWSTETHGainToTrove s a issued troveStatus = .ok (s', p)) : DepositorPaid s s' a issued p.shady := by
  simp only [withdrawWSTETHGainToTrove, requireUserHasDeposit, require_bind] at h
  obtain ⟨-, -, h⟩ := h
  obtain ⟨_, -, h⟩ := bind_ok.1 h
  simp only [require_bind] at h
  obtain ⟨-, h⟩ := h
  obtain ⟨s₁, hissued, h⟩ := bind_ok.1 h
  obtain ⟨_, -, h⟩ := bind_ok.1 h
  obtain ⟨_, -, h⟩ := bind_ok.1 h
  obtain ⟨_, -, h⟩ := bind_ok.1 h
  obtain ⟨shady, hshady, h⟩ := bind_ok.1 h
  simp only [usub_bind, pure_ok, Prod.mk.injEq] at h
  obtain ⟨-, rfl, rfl⟩ := h
  exact ⟨s₁, hissued, hshady, rfl, rfl⟩

/-- an offset issues, and leaves the SHADY books alone after that -/
theorem offset_issues {debt coll issued : ℕ} (h : offset s debt coll issued = .ok s') :
    s' = s ∨ ∃ s₁, triggerSHADYIssuance s issued = .ok s₁ ∧ s'.epochToScaleToG = s₁.epochToScaleToG ∧
      s'.lastSHADYError = s₁.lastSHADYError := by
  unfold offset at h
  split_ifs at h
  · cases h
    exact .inl rfl
  · simp only [bind_ok] at h
    obtain ⟨s₁, h1, ⟨gain, loss, s₂⟩, h2, s₃, h3, h4⟩ := h
    obtain ⟨e, G, rfl⟩ := triggerSHADYIssuance_ok h1
    obtain ⟨-, -, -, -, le, -, rfl⟩ := computeRewardsPerUnitStaked_ok h2
    simp only [updateRewardSumAndProduct, assert_bind, usub_bind, umul_bind, uadd_bind] at h3
    obtain ⟨-, -, -, -, h3⟩ := h3
    obtain ⟨⟨newP, scale, epoch⟩, -, h3⟩ := bind_ok.1 h3
    simp only [assert_bind, pure_ok] at h3
    obtain ⟨-, rfl⟩ := h3
    simp only [moveOffsetCollAndDebt, decreaseSIM, receiveWSTETH, bind_ok, usub_ok, uadd_ok, pure_ok] at h4
    obtain ⟨_, ⟨_, ⟨-, rfl⟩, rfl⟩, _, ⟨-, rfl⟩, rfl⟩ := h4
    exact .inr ⟨_, h1, rfl, rfl⟩

/-! ## The exact gain -/

/-- the pool with its SHADY sums in the place of its collateral sums: a SHADY gain is read from them in the same way -/
def shadyView (s : Pool) : Pool :=
  { s with
    epochToScaleToSum := s.epochToScaleToG
    depositSnapshots := fun a => { s.depositSnapshots a with S := (s.depositSnapshots a).G } }

/-- the kickback rate of 100% changes nothing -/
theorem getDepositorSHADYGain_view {a : Address} {g : ℕ} (h : getDepositorSHADYGain s a = .ok g) :
    getDepositorWSTETHGain (shadyView s) a = .ok g := by
  unfold getDepositorSHADYGain at h
  show (if s.deposits a = 0 then _ else _) = _
  split_ifs at h ⊢ with hd
  · exact h
  · obtain ⟨gain, hgain, h⟩ := bind_ok.1 h
    simp only [umul_bind, udiv_ok] at h
    obtain ⟨-, hpos, rfl⟩ := h
    rw [Nat.mul_div_cancel_left _ hpos]
    exact hgain

theorem shownReward_le (hs : SumsWf (shadyView s)) (a : Address) :
    ((getDepositorSHADYGain s a).shown : ℚ) * DECIMAL_PRECISION ≤ exactGain (shadyView s) a := by
  cases h : getDepositorSHADYGain s a with
  | ok g => exact depositorGain_le hs (getDepositorSHADYGain_view h)
  | error e => simpa [Res.shown] using gain_nonneg hs a

/-- an issuance adds to each gain at most the amount per unit times the share -/
theorem IssuanceStep.gain_le {perUnit given : ℕ} (h : IssuanceStep s s' perUnit given) (hs : Wf s) (a : Address) :
    exactGain (shadyView s') a ≤ exactGain (shadyView s) a + perUnit * share s a := by
  have hdeposits : s'.deposits = s.deposits := by rw [h.rest]
  have hsnapshots : s'.depositSnapshots = s.depositSnapshots := by rw [h.rest]
  have hshare : 0 ≤ (perUnit : ℚ) * share s a := mul_nonneg (by positivity) (share_nonneg s a)
  by_cases hd : s.deposits a = 0
  · have h0 : exactGain (shadyView s') a = 0 := gain_zero (congrFun hdeposits a |>.trans hd)
    rw [h0]
    exact add_nonneg (gain_zero (s := shadyView s) hd).ge hshare
  simp only [exactGain, shadyView, hdeposits, hsnapshots, h.sum]
  by_cases hepoch : (s.depositSnapshots a).epoch = s.currentEpoch
  swap
  · rw [write_of_ne _ fun e => hepoch e.1, write_of_ne _ fun e => hepoch e.1]
    linarith
  have hscale := hs.scale_le a hd hepoch
  -- the sum written is the deposit's own (same scale), the next one, or one it does not read
  rcases (by omega : (s.depositSnapshots a).scale = s.currentScale ∨
      (s.depositSnapshots a).scale + 1 = s.currentScale ∨
      (s.depositSnapshots a).scale + 1 < s.currentScale) with hsc | hsc | hsc
  · refine le_of_eq ?_
    simp only [share, hepoch, if_true, hsc]
    rw [write_self, write_of_ne _ (by omega), Nat.sub_self, pow_zero]
    push_cast
    ring
  · refine le_of_eq ?_
    simp only [share, hepoch, if_true, hsc]
    rw [write_self, write_of_ne _ (by omega), show s.currentScale - (s.depositSnapshots a).scale = 1 by omega, pow_one]
    push_cast
    ring
  · rw [write_of_ne _ (by omega), write_of_ne _ (by omega)]
    linarith

/-! ## One step -/

/-- all gains are covered by `funds`, less the error carried to the next issuance -/
structure RewardsBacked (s : Pool) (funds : ℕ) : Prop where
  deposits : Backed s
  sums : SumsWf (shadyView s)
  covered : ∑ a, exactGain (shadyView s) a + s.lastSHADYError ≤ (funds : ℚ) * DECIMAL_PRECISION

/-- what is spread comes on top -/
theorem IssuanceStep.rewardsBacked {perUnit given funds : ℕ} (h : IssuanceStep s s' perUnit given)
    (hs : RewardsBacked s funds) : RewardsBacked s' (funds + given) := by
  have hwf := hs.deposits.wf
  have hgains := Ledger.gains_accrue (h.gain_le hwf) (by positivity) hs.deposits.covered
  have hspread : (perUnit : ℚ) * s.totalSIMDeposits + s'.lastSHADYError =
      given * DECIMAL_PRECISION + s.lastSHADYError := by exact_mod_cast h.spread
  have hcovered := hs.covered
  refine ⟨?_, ⟨fun a ha => ?_, fun epoch scale hnew => ?_⟩, ?_⟩
  · rw [h.rest]
    exact ⟨⟨hwf.product_pos, hwf.snapshot_pos, hwf.epoch_le, hwf.scale_le⟩, hs.deposits.covered⟩
  · have hdeposits : s'.deposits = s.deposits := by rw [h.rest]
    have hsnapshots : s'.depositSnapshots = s.depositSnapshots := by rw [h.rest]
    simp only [shadyView, hdeposits, hsnapshots, h.sum] at ha ⊢
    exact (hs.sums.snapshot_le a ha).trans (le_write _ (Nat.le_add_right _ _) _ _)
  · have hepoch : s'.currentEpoch = s.currentEpoch := by rw [h.rest]
    have hscale : s'.currentScale = s.currentScale := by rw [h.rest]
    simp only [shadyView, hepoch, hscale, h.sum] at hnew ⊢
    rw [write_of_ne _ (by omega)]
    exact hs.sums.fresh epoch scale hnew
  · push_cast
    linarith

/-- a depositor call pays the caller's gain out of the funds -/
theorem DepositorStep.rewardsBacked {a : Address} {c d w issued shady funds : ℕ} (h : DepositorStep s s' a c d w)
    (hpaid : DepositorPaid s s' a issued shady) (hs : RewardsBacked s funds) :
    ∃ given, given ≤ issued ∧ shady ≤ funds + given ∧ RewardsBacked s' (funds + given - shady) := by
  obtain ⟨s₁, hissued, hshady, hG, herror⟩ := hpaid.issuance
  obtain ⟨perUnit, given, hgiven, hstep⟩ := triggerSHADYIssuance_step hissued
  have hs₁ := hstep.rewardsBacked hs
  have hdeposits : s₁.deposits = s.deposits := by rw [hstep.rest]
  have hsnapshots : s₁.depositSnapshots = s.depositSnapshots := by rw [hstep.rest]
  obtain ⟨-, hscale, hepoch⟩ := h.product
  have hothers : ∀ b, b ≠ a → exactGain (shadyView s') b = exactGain (shadyView s₁) b := by
    intro b hb
    simp only [exactGain, shadyView, h.snapshots, h.deposits, hdeposits, hsnapshots, hG, Function.update_of_ne hb]
  -- the sums the caller's new snapshot is taken of
  have hfresh : ∀ epoch scale, s'.currentEpoch < epoch ∨ (epoch = s'.currentEpoch ∧ s'.currentScale < scale) →
      s'.epochToScaleToG epoch scale = 0 := by
    intro epoch scale hnew
    have hepoch₁ : s₁.currentEpoch = s.currentEpoch := by rw [hstep.rest]
    have hscale₁ : s₁.currentScale = s.currentScale := by rw [hstep.rest]
    rw [hG]
    rw [hepoch, hscale, ← hepoch₁, ← hscale₁] at hnew
    exact hs₁.sums.fresh epoch scale hnew
  have hcaller : exactGain (shadyView s') a = 0 := by
    have hnext := hfresh s'.currentEpoch (s'.currentScale + 1) (.inr ⟨rfl, Nat.lt_succ_self _⟩)
    simp only [exactGain, shadyView, h.snapshots, h.deposits, Function.update_self, snapshotFor]
    by_cases hd : d = 0
    · simp [hd]
    · simp [hd, hnext]
  have hsum := Ledger.sum_replace hothers
  have hgain := depositorGain_le hs₁.sums (getDepositorSHADYGain_view hshady)
  have hcovered := hs₁.covered
  have hrest : 0 ≤ ∑ b, exactGain (shadyView s') b + (s'.lastSHADYError : ℚ) := by
    have hnonneg : ∀ b ∈ Finset.univ, 0 ≤ exactGain (shadyView s') b := by
      intro b _
      by_cases hb : b = a
      · rw [hb, hcaller]
      · rw [hothers b hb]
        exact gain_nonneg hs₁.sums b
    exact add_nonneg (Finset.sum_nonneg hnonneg) (Nat.cast_nonneg _)
  have hafter : ∑ b, exactGain (shadyView s') b + (s'.lastSHADYError : ℚ) ≤
      ((funds + given : ℕ) - shady : ℚ) * DECIMAL_PRECISION := by
    rw [herror, sub_mul]
    linarith
  have hle : shady ≤ funds + given := by
    have hpos : (0 : ℚ) < DECIMAL_PRECISION := by simp [DECIMAL_PRECISION]
    have h0 := nonneg_of_mul_nonneg_left (hrest.trans hafter) hpos
    exact_mod_cast sub_nonneg.1 h0
  refine ⟨given, hgiven, hle, h.backed hs.deposits, ⟨fun b hb => ?_, hfresh⟩, ?_⟩
  · simp only [shadyView, h.deposits, h.snapshots] at hb ⊢
    by_cases hba : b = a
    · subst hba
      rw [Function.update_self] at hb ⊢
      simp [snapshotFor, hb]
    · rw [Function.update_of_ne hba] at hb ⊢
      have hle := hs₁.sums.snapshot_le b (by rw [shadyView, hdeposits]; exact hb)
      simpa only [shadyView, hsnapshots, hG] using hle
  · rw [Nat.cast_sub hle]
    exact hafter

/-- an offset only issues -/
theorem OffsetStep.rewardsBacked {debt coll issued funds : ℕ} (h : OffsetStep s s' debt coll)
    (hfull : ChargesInFull s (.offset debt coll issued)) (hissued : triggerSHADYIssuance s issued = .ok s₁)
    (hG : s'.epochToScaleToG = s₁.epochToScaleToG) (herror : s'.lastSHADYError = s₁.lastSHADYError)
    (hs : RewardsBacked s funds) : ∃ given, given ≤ issued ∧ RewardsBacked s' (funds + given) := by
  obtain ⟨perUnit, given, hgiven, hstep⟩ := triggerSHADYIssuance_step hissued
  have hs₁ := hstep.rewardsBacked hs
  have hdeposits : s'.deposits = s₁.deposits := by rw [h.deposits, hstep.rest]
  have hsnapshots : s'.depositSnapshots = s₁.depositSnapshots := by rw [h.snapshots, hstep.rest]
  have hgains : exactGain (shadyView s') = exactGain (shadyView s₁) := by
    funext a
    simp only [exactGain, shadyView, hdeposits, hsnapshots, hG]
  refine ⟨given, hgiven, h.backed hfull hs.deposits, ⟨fun a ha => ?_, fun epoch scale hnew => ?_⟩, ?_⟩
  · have hle := hs₁.sums.snapshot_le a (by rw [shadyView, ← hdeposits]; exact ha)
    simpa only [shadyView, hsnapshots, hG] using hle
  · have hepoch : s₁.currentEpoch = s.currentEpoch := by rw [hstep.rest]
    have hscale : s₁.currentScale = s.currentScale := by rw [hstep.rest]
    have hold : s₁.currentEpoch < epoch ∨ (epoch = s₁.currentEpoch ∧ s₁.currentScale < scale) := by
      simp only [shadyView] at hnew
      rcases h.product with ⟨-, -, hsc, he⟩ | ⟨-, -, -, hsc, he⟩ | ⟨-, -, -, hsc, he⟩ <;> omega
    exact (congrFun (congrFun hG epoch) scale).trans (hs₁.sums.fresh epoch scale hold)
  · rw [hgains, herror]
    exact hs₁.covered

/-! ## The pool and the issuance contract -/

variable {cfg : Shady.Config}

/-- the pool, and the contracts around the SHADY token -/
structure Rewarded where
  pool : Pool
  shady : Shady.State

/-- the pool's own transactions: it is the issuer -/
structure PoolEnv (cfg : Shady.Config) where
  env : Shady.Env cfg
  sender_issuer : env.sender = cfg.issuerAddress .community

/-- a call of the pool, or a transaction of the SHADY contracts by somebody else -/
inductive RewardTx (cfg : Shady.Config) where
  | shady (tx : Shady.Tx cfg) (outside : tx.env.sender ≠ cfg.issuerAddress .community)
  | provideToSP (env : PoolEnv cfg) (sender : Address) (amount : ℕ)
  | withdrawFromSP (env : PoolEnv cfg) (sender : Address) (amount lowestICR : ℕ)
  | withdrawWSTETHGainToTrove (env : PoolEnv cfg) (sender : Address) (troveStatus : ℕ)
  | offset (env : PoolEnv cfg) (debtToOffset collToAdd : ℕ)

/-- a depositor call between `issueSHADY` and `sendSHADY` -/
def callRewarded (s : Rewarded) (env : PoolEnv cfg) (sender : Address) (call : ℕ → Res (Pool × Payout)) : Res Rewarded := do
  let (shady, issued) ← Shady.issueSHADY s.shady env.env .community
  let (pool, payout) ← call issued
  let shady ← Shady.sendSHADY shady env.env .community sender payout.shady
  pure { pool, shady }

def execRewarded (s : Rewarded) : RewardTx cfg → Res Rewarded
  | .shady tx _ => do
    let shady ← Shady.exec s.shady tx
    pure { s with shady }
  | .provideToSP env sender amount => callRewarded s env sender (provideToSP s.pool sender amount)
  | .withdrawFromSP env sender amount lowestICR =>
    callRewarded s env sender fun issued => withdrawFromSP s.pool sender amount issued lowestICR
  | .withdrawWSTETHGainToTrove env sender troveStatus =>
    callRewarded s env sender fun issued => withdrawWSTETHGainToTrove s.pool sender issued troveStatus
  | .offset env debtToOffset collToAdd =>
    -- nothing is issued for an offset that is skipped
    if s.pool.totalSIMDeposits = 0 ∨ debtToOffset = 0 then .ok s
    else do
      let (shady, issued) ← Shady.issueSHADY s.shady env.env .community
      let pool ← offset s.pool debtToOffset collToAdd issued
      pure { pool, shady }

/-- as for the pool alone -/
def RewardTx.ChargesInFull (s : Rewarded) : RewardTx cfg → Prop
  | .offset _ debt coll => StabilityPool.ChargesInFull s.pool (.offset debt coll 0)
  | _ => True

instance (s : Rewarded) : ∀ tx : RewardTx cfg, Decidable (tx.ChargesInFull s)
  | .offset _ debt coll => inferInstanceAs (Decidable (StabilityPool.ChargesInFull s.pool (.offset debt coll 0)))
  | .shady _ _ | .provideToSP _ _ _ | .withdrawFromSP _ _ _ _ | .withdrawWSTETHGainToTrove _ _ _ => isTrue trivial

/-- the issuance contract has what it has not issued yet and the funds for all gains -/
structure Covered (cfg : Shady.Config) (s : Rewarded) : Prop where
  inv : Shady.Inv cfg s.shady
  issued_le : s.shady.totalSHADYIssued .community ≤ Shady.SHADYSupplyCap
  funds : ∃ funds, RewardsBacked s.pool funds ∧ Shady.SHADYSupplyCap - s.shady.totalSHADYIssued .community + funds ≤
    s.shady.token.erc20.balanceOf (cfg.issuanceAddress .community)

/-- an issuance by the pool adds to the total, within the cap -/
theorem issueSHADY_within {shady shady' : Shady.State} {env : Shady.Env cfg} {issuance : ℕ}
    (h : Shady.issueSHADY shady env .community = .ok (shady', issuance)) :
    shady.totalSHADYIssued .community + issuance ≤ Shady.SHADYSupplyCap ∧
      shady'.totalSHADYIssued .community = shady.totalSHADYIssued .community + issuance ∧
      shady'.token = shady.token ∧ (Shady.Inv cfg shady → Shady.Inv cfg shady') := by
  obtain ⟨⟨fraction, hfraction, htotal⟩, rfl⟩ := Shady.issueSHADY_ok h
  have hle : fraction ≤ DECIMAL_PRECISION := by
    obtain ⟨_, -, hfraction⟩ := bind_ok.1 hfraction
    obtain ⟨_, -, hfraction⟩ := bind_ok.1 hfraction
    simp only [usub_bind, assert_bind, pure_ok] at hfraction
    obtain ⟨-, hle, rfl⟩ := hfraction
    exact hle
  refine ⟨?_, by simp, rfl, fun hinv => ⟨hinv.unapproved, hinv.registered, hinv.lockups⟩⟩
  rw [htotal]
  exact Nat.div_le_of_le_mul (by rw [Nat.mul_comm]; exact Nat.mul_le_mul_right _ hle)

/-- nobody but the issuer sends -/
theorem sent_of_other {p : Shady.Program} {s : Shady.State} {tx : Shady.Tx cfg} (h : tx.env.sender ≠ cfg.issuerAddress p) :
    Shady.sent p s tx = 0 := by
  unfold Shady.sent
  split
  · rename_i q account amount hcall
    split_ifs
    · cases hsend : Shady.sendSHADY s tx.env p account amount with
      | ok s' =>
        obtain ⟨_, hsender, -⟩ := bind_ok.1 hsend
        exact absurd (require_ok.1 hsender) h
      | error e => rfl
    · rfl
  · rfl

/-- a depositor call keeps the gains covered -/
theorem callRewarded_covered {s s' : Rewarded} {env : PoolEnv cfg} {sender : Address} {call : ℕ → Res (Pool × Payout)}
    (hcall : ∀ {issued pool payout}, call issued = .ok (pool, payout) →
      (∃ c d w, DepositorStep s.pool pool sender c d w) ∧ DepositorPaid s.pool pool sender issued payout.shady)
    (h : callRewarded s env sender call = .ok s') (hs : Covered cfg s) : Covered cfg s' := by
  obtain ⟨⟨shady₁, issued⟩, hissue, h⟩ := bind_ok.1 h
  obtain ⟨⟨pool, payout⟩, hpool, h⟩ := bind_ok.1 h
  obtain ⟨shady₂, hsend, h⟩ := bind_ok.1 h
  obtain rfl := pure_ok.1 h
  obtain ⟨hcap, htotal, htoken, hinv⟩ := issueSHADY_within hissue
  obtain ⟨⟨c, d, w, hstep⟩, hpaid⟩ := hcall hpool
  obtain ⟨funds, hbacked, hfunds⟩ := hs.funds
  obtain ⟨given, hgiven, hle, hbacked'⟩ := hstep.rewardsBacked hpaid hbacked
  obtain ⟨-, token, htransfer, rfl⟩ := Shady.sendSHADY_ok hsend
  have hbalance := (Shady.transfer_paid htransfer).2.balance (cfg.issuanceAddress .community)
  rw [if_pos rfl, if_neg ((Shady.transfer_paid htransfer).2.issuance .community).symm, htoken] at hbalance
  refine ⟨(hinv hs.inv).transfer htransfer, by rw [htotal]; exact hcap, _, hbacked', ?_⟩
  show Shady.SHADYSupplyCap - shady₁.totalSHADYIssued .community + _ ≤ token.erc20.balanceOf _
  rw [htotal]
  omega

theorem execRewarded_covered {s s' : Rewarded} {tx : RewardTx cfg} (h : execRewarded s tx = .ok s')
    (hfull : tx.ChargesInFull s) (hs : Covered cfg s) : Covered cfg s' := by
  cases tx with
  | shady tx outside =>
    obtain ⟨shady', hexec, h⟩ := bind_ok.1 h
    obtain rfl := pure_ok.1 h
    have hnotIssues : tx.issues .community = false := by
      unfold Shady.Tx.issues
      split
      · simp [outside]
      · rfl
    -- nobody but the pool issues or sends
    have hissued := Shady.exec_issued (p := .community) hexec
    rw [Shady.issued_of_not_issues hexec hnotIssues, Nat.add_zero] at hissued
    have hsent := sent_of_other (s := s.shady) outside
    have hbalance := (Shady.exec_sent (p := .community) hs.inv hexec).1
    rw [hsent, Nat.add_zero] at hbalance
    obtain ⟨funds, hbacked, hfunds⟩ := hs.funds
    refine ⟨(Shady.exec_balances hs.inv hexec).1, by rw [hissued]; exact hs.issued_le, funds, hbacked, ?_⟩
    rw [hissued, hbalance]
    exact hfunds
  | provideToSP env sender amount =>
    unfold execRewarded at h
    refine callRewarded_covered (fun {issued pool payout} hcall => ?_) h hs
    obtain ⟨c, hstep⟩ := provideToSP_ok hcall
    exact ⟨⟨c, _, _, hstep⟩, provideToSP_paid hcall⟩
  | withdrawFromSP env sender amount lowestICR =>
    unfold execRewarded at h
    refine callRewarded_covered (fun {issued pool payout} hcall => ?_) h hs
    obtain ⟨c, -, hstep⟩ := withdrawFromSP_ok hcall
    exact ⟨⟨c, _, _, hstep⟩, withdrawFromSP_paid hcall⟩
  | withdrawWSTETHGainToTrove env sender troveStatus =>
    unfold execRewarded at h
    refine callRewarded_covered (fun {issued pool payout} hcall => ?_) h hs
    obtain ⟨c, hstep⟩ := withdrawWSTETHGainToTrove_ok hcall
    exact ⟨⟨c, _, _, hstep⟩, withdrawWSTETHGainToTrove_paid hcall⟩
  | offset env debt coll =>
    rw [execRewarded] at h
    split_ifs at h with hskip
    · cases h
      exact hs
    · obtain ⟨⟨shady₁, issued⟩, hissue, h⟩ := bind_ok.1 h
      obtain ⟨pool, hpool, h⟩ := bind_ok.1 h
      obtain rfl := pure_ok.1 h
      obtain ⟨hcap, htotal, htoken, hinv⟩ := issueSHADY_within hissue
      obtain ⟨funds, hbacked, hfunds⟩ := hs.funds
      have hstep := (offset_ok hpool).resolve_left fun hsame => hskip hsame.2
      have hbacked' : ∃ given, given ≤ issued ∧ RewardsBacked pool (funds + given) := by
        rcases offset_issues hpool with rfl | ⟨s₁, hissued, hG, herror⟩
        · exact ⟨0, Nat.zero_le _, hbacked⟩
        · have hfull' : ChargesInFull s.pool (.offset debt coll issued) := hfull
          exact hstep.rewardsBacked hfull' hissued hG herror hbacked
      obtain ⟨given, hgiven, hbacked'⟩ := hbacked'
      refine ⟨hinv hs.inv, by rw [htotal]; exact hcap, _, hbacked', ?_⟩
      rw [htotal, htoken]
      omega

/-! ## Main result -/

/-- **Gains can be paid.** After every history whose successful offsets charge their debt in full, the issuance contract has what
it has not issued yet and all the gains shown to depositors together: the check of `sendSHADY` passes for each of them,
also after all others were paid. -/
theorem rewards_covered (s₀ : Shady.State) (hs₀ : Shady.deploy cfg = .ok s₀) (txs : List (RewardTx cfg))
    (hfull : AlongOk execRewarded (fun s tx => tx.ChargesInFull s) ⟨init, s₀⟩ txs) :
    let s := run execRewarded ⟨init, s₀⟩ txs
    Shady.SHADYSupplyCap - s.shady.totalSHADYIssued .community + ∑ a, (getDepositorSHADYGain s.pool a).shown ≤
      s.shady.token.erc20.balanceOf (cfg.issuanceAddress .community) := by
  intro s
  obtain ⟨hinv, hbalance, -, hissued⟩ := Shady.deploy_ok hs₀
  have hstart : Covered cfg ⟨init, s₀⟩ := by
    refine ⟨hinv, by rw [hissued]; exact Nat.zero_le _, 0, ⟨init_backed, ⟨fun _ h => absurd rfl h, fun _ _ _ => rfl⟩, ?_⟩, ?_⟩
    · simp [exactGain, shadyView, init]
    · exact (Nat.sub_le _ _).trans (hbalance .community).ge
  have hs : Covered cfg s :=
    run_inv_ok execRewarded (fun _ _ _ hs hf h => execRewarded_covered h hf hs) _ txs hstart hfull
  obtain ⟨funds, hbacked, hfunds⟩ := hs.funds
  have hshown : (∑ a, ((getDepositorSHADYGain s.pool a).shown : ℚ)) * DECIMAL_PRECISION ≤
      (funds : ℚ) * DECIMAL_PRECISION := by
    rw [Finset.sum_mul]
    refine (Finset.sum_le_sum fun a _ => shownReward_le hbacked.sums a).trans ?_
    linarith [hbacked.covered, Nat.cast_nonneg (α := ℚ) s.pool.lastSHADYError]
  have hle : ∑ a, (getDepositorSHADYGain s.pool a).shown ≤ funds := by
    have h := le_of_mul_le_mul_right hshown (by simp [DECIMAL_PRECISION])
    exact_mod_cast h
  omega

def poolEnv (timestamp : ℕ) : PoolEnv Shady.exampleConfig := ⟨(Shady.fromIssuer timestamp (.issueSHADY .community)).env, rfl⟩

/-- two deposits, an hour and a day after the deployment, an offset, and the withdrawal of one gain -/
def rewardedDay : List (RewardTx Shady.exampleConfig) :=
  [.provideToSP (poolEnv 4600) 1 (3 * 10 ^ 21), .provideToSP (poolEnv 87400) 2 (10 ^ 21),
    .offset (poolEnv 90000) (10 ^ 21) (10 ^ 18), .withdrawFromSP (poolEnv 172800) 1 0 0]

theorem rewards_covered_day : ∃ s₀, Shady.deploy Shady.exampleConfig = .ok s₀ ∧
    AlongOk execRewarded (fun s tx => tx.ChargesInFull s) ⟨init, s₀⟩ rewardedDay ∧
    Shady.SHADYSupplyCap - (run execRewarded ⟨init, s₀⟩ rewardedDay).shady.totalSHADYIssued .community +
        ∑ a, (getDepositorSHADYGain (run execRewarded ⟨init, s₀⟩ rewardedDay).pool a).shown ≤
      (run execRewarded ⟨init, s₀⟩ rewardedDay).shady.token.erc20.balanceOf 10 := by
  obtain ⟨s₀, hs₀⟩ : ∃ s₀, Shady.deploy Shady.exampleConfig = .ok s₀ := Res.failure_none (by decide +kernel)
  have hfull : (Shady.deploy Shady.exampleConfig).toOption.all (fun s₀ =>
      decide (AlongOk execRewarded (fun s tx => tx.ChargesInFull s) ⟨init, s₀⟩ rewardedDay)) = true := by decide +kernel
  rw [hs₀] at hfull
  have hfull := of_decide_eq_true hfull
  exact ⟨s₀, hs₀, hfull, rewards_covered s₀ hs₀ rewardedDay hfull⟩

end SimContracts.StabilityPool
