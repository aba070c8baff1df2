/-
What a successful call of the Stability Pool does to the state, in plain arithmetic: one inversion lemma for the
offset (`offset_ok`) and one for the three depositor calls (`DepositorStep`), which all settle a deposit and write it
anew. Everything later about the pool is derived from these.
-/
import SimContracts.StabilityPool.Model

namespace SimContracts.StabilityPool

open Solidity

variable {s s' : Pool}

/-! ## Issuance -/

/-- a SHADY issuance touches the sum `G` and its error only -/
theorem triggerSHADYIssuance_ok {issued : ℕ} (h : triggerSHADYIssuance s issued = .ok s') :
    ∃ e G, s' = { s with lastSHADYError := e, epochToScaleToG := G } := by
  unfold triggerSHADYIssuance updateG at h
  split_ifs at h
  · cases h
    exact ⟨_, _, rfl⟩
  · simp only [computeSHADYPerUnitStaked, bind_ok, pure_ok] at h
    obtain ⟨_, ⟨_, _, _, _, _, _, _, _, _, _, rfl⟩, _, _, _, _, rfl⟩ := h
    exact ⟨_, _, rfl⟩

/-! ## Offset -/

/-- the loss charged to each unit staked by an offset of `debt` -/
def simLoss (s : Pool) (debt : ℕ) : ℕ :=
  if debt = s.totalSIMDeposits then DECIMAL_PRECISION
  else (debt * DECIMAL_PRECISION - s.lastSIMLossError_Offset) / s.totalSIMDeposits + 1

/-- the product, scale and epoch after multiplying by `f / 1e18` -/
inductive ProductStep (s : Pool) (f newP scale epoch : ℕ) : Prop where
  | epoch : f = 0 → newP = DECIMAL_PRECISION → scale = 0 → epoch = s.currentEpoch + 1 → ProductStep s f newP scale epoch
  | scale : f ≠ 0 → s.P * f / DECIMAL_PRECISION < SCALE_FACTOR → newP = s.P * f * SCALE_FACTOR / DECIMAL_PRECISION →
      scale = s.currentScale + 1 → epoch = s.currentEpoch → ProductStep s f newP scale epoch
  | same : f ≠ 0 → SCALE_FACTOR ≤ s.P * f / DECIMAL_PRECISION → newP = s.P * f / DECIMAL_PRECISION →
      scale = s.currentScale → epoch = s.currentEpoch → ProductStep s f newP scale epoch

theorem updateProduct_ok {f newP scale epoch : ℕ} (h : updateProduct s f = .ok (newP, scale, epoch)) :
    ProductStep s f newP scale epoch := by
  unfold updateProduct at h
  split_ifs at h with hf
  · simp only [uadd128_bind, pure_ok, Prod.mk.injEq] at h
    obtain ⟨-, rfl, rfl, rfl⟩ := h
    exact .epoch hf rfl rfl rfl
  · simp only [umul_bind, udiv_bind] at h
    obtain ⟨-, -, h⟩ := h
    split_ifs at h with hlt
    · simp only [umul_bind, udiv_bind, uadd128_bind, pure_ok, Prod.mk.injEq] at h
      obtain ⟨-, -, -, -, rfl, rfl, rfl⟩ := h
      exact .scale hf hlt rfl rfl rfl
    · simp only [pure_ok, Prod.mk.injEq] at h
      obtain ⟨rfl, rfl, rfl⟩ := h
      exact .same hf (by omega) rfl rfl rfl

/-- an offset of `debt` against `coll` that is not a no-op -/
structure OffsetStep (s s' : Pool) (debt coll : ℕ) : Prop where
  debt_pos : 0 < debt
  debt_le : debt ≤ s.totalSIMDeposits
  /-- the carried error never exceeds the debt it is subtracted from -/
  carry_le : debt ≠ s.totalSIMDeposits → s.lastSIMLossError_Offset ≤ debt * DECIMAL_PRECISION
  loss_le : simLoss s debt ≤ DECIMAL_PRECISION
  product : ProductStep s (DECIMAL_PRECISION - simLoss s debt) s'.P s'.currentScale s'.currentEpoch
  product_pos : 0 < s'.P
  sum : s'.epochToScaleToSum = write s.epochToScaleToSum s.currentEpoch s.currentScale
    (s.epochToScaleToSum s.currentEpoch s.currentScale +
      (coll * DECIMAL_PRECISION + s.lastWSTETHError_Offset) / s.totalSIMDeposits * s.P)
  gainError : s'.lastWSTETHError_Offset = coll * DECIMAL_PRECISION + s.lastWSTETHError_Offset -
    (coll * DECIMAL_PRECISION + s.lastWSTETHError_Offset) / s.totalSIMDeposits * s.totalSIMDeposits
  total : s'.totalSIMDeposits = s.totalSIMDeposits - debt
  coll : s'.WSTETH = s.WSTETH + coll
  deposits : s'.deposits = s.deposits
  snapshots : s'.depositSnapshots = s.depositSnapshots
  /-- the loss is rounded up by at most one unit for each SIM -/
  lossError : s'.lastSIMLossError_Offset ≤ s.totalSIMDeposits

theorem computeSIMLossPerUnitStaked_ok {debt loss e : ℕ}
    (h : computeSIMLossPerUnitStaked s debt s.totalSIMDeposits = .ok (loss, e)) :
    loss = simLoss s debt ∧
      (debt ≠ s.totalSIMDeposits → s.lastSIMLossError_Offset ≤ debt * DECIMAL_PRECISION) ∧ e ≤ s.totalSIMDeposits := by
  unfold computeSIMLossPerUnitStaked at h
  unfold simLoss
  split_ifs at h ⊢ with hd
  · cases h
    exact ⟨rfl, fun hne => absurd hd hne, Nat.zero_le _⟩
  · simp only [umul_bind, usub_bind, udiv_bind, uadd_bind, pure_ok, Prod.mk.injEq] at h
    obtain ⟨-, hcarry, hpos, -, -, -, hloss, rfl⟩ := h
    refine ⟨hloss.symm, fun _ => hcarry, ?_⟩
    have hdiv := Nat.div_add_mod (debt * DECIMAL_PRECISION - s.lastSIMLossError_Offset) s.totalSIMDeposits
    rw [Nat.add_mul, Nat.one_mul, Nat.mul_comm]
    omega

theorem computeRewardsPerUnitStaked_ok {coll debt gain loss : ℕ}
    (h : computeRewardsPerUnitStaked s coll debt s.totalSIMDeposits = .ok (gain, loss, s')) :
    debt ≤ s.totalSIMDeposits ∧
      (debt ≠ s.totalSIMDeposits → s.lastSIMLossError_Offset ≤ debt * DECIMAL_PRECISION) ∧
      gain = (coll * DECIMAL_PRECISION + s.lastWSTETHError_Offset) / s.totalSIMDeposits ∧ loss = simLoss s debt ∧
      ∃ e ≤ s.totalSIMDeposits, s' = { s with
        lastSIMLossError_Offset := e
        lastWSTETHError_Offset := coll * DECIMAL_PRECISION + s.lastWSTETHError_Offset -
          (coll * DECIMAL_PRECISION + s.lastWSTETHError_Offset) / s.totalSIMDeposits * s.totalSIMDeposits } := by
  simp only [computeRewardsPerUnitStaked, umul_bind, uadd_bind, assert_bind] at h
  obtain ⟨-, -, hle, h⟩ := h
  obtain ⟨⟨l, e⟩, hl, h⟩ := bind_ok.1 h
  simp only [udiv_bind, umul_bind, usub_bind, pure_ok, Prod.mk.injEq] at h
  obtain ⟨-, -, -, rfl, rfl, rfl⟩ := h
  obtain ⟨rfl, hc, he⟩ := computeSIMLossPerUnitStaked_ok hl
  exact ⟨hle, hc, rfl, rfl, e, he, rfl⟩

/-- **One offset.** A successful offset is a no-op (nothing to offset) or an `OffsetStep`. -/
theorem offset_ok {debt coll issued : ℕ} (h : offset s debt coll issued = .ok s') :
    (s' = s ∧ (s.totalSIMDeposits = 0 ∨ debt = 0)) ∨ OffsetStep s s' debt coll := by
  unfold offset at h
  split_ifs at h with h0
  · cases h
    exact .inl ⟨rfl, h0⟩
  · simp only [bind_ok] at h
    obtain ⟨s₁, h1, ⟨gain, loss, s₂⟩, h2, s₃, h3, h4⟩ := h
    obtain ⟨e, G, rfl⟩ := triggerSHADYIssuance_ok h1
    obtain ⟨hle, hc, rfl, rfl, le, herror, rfl⟩ := computeRewardsPerUnitStaked_ok h2
    simp only [updateRewardSumAndProduct, assert_bind, usub_bind, umul_bind, uadd_bind] at h3
    obtain ⟨hloss, -, -, -, h3⟩ := h3
    obtain ⟨⟨newP, scale, epoch⟩, hp, h3⟩ := bind_ok.1 h3
    simp only [assert_bind, pure_ok] at h3
    obtain ⟨hpos, rfl⟩ := h3
    simp only [moveOffsetCollAndDebt, decreaseSIM, receiveWSTETH, bind_ok, usub_ok, uadd_ok, pure_ok] at h4
    obtain ⟨_, ⟨_, ⟨-, rfl⟩, rfl⟩, _, ⟨-, rfl⟩, rfl⟩ := h4
    refine .inr ⟨by omega, hle, hc, hloss, ?_, hpos, rfl, rfl, rfl, rfl, rfl, rfl, herror⟩
    have hstep := updateProduct_ok hp
    cases hstep with
    | epoch hf h1 h2 h3 => exact .epoch hf h1 h2 h3
    | scale hf hlt h1 h2 h3 => exact .scale hf hlt h1 h2 h3
    | same hf hle h1 h2 h3 => exact .same hf hle h1 h2 h3

/-- the books of an offset, before the collateral arrives -/
def Cancels (s s' : Pool) (debt coll issued : ℕ) : Prop :=
  ∃ s₁ gain loss s₂ s₃, triggerSHADYIssuance s issued = .ok s₁ ∧
    computeRewardsPerUnitStaked s₁ coll debt s.totalSIMDeposits = .ok (gain, loss, s₂) ∧
    updateRewardSumAndProduct s₂ gain loss = .ok s₃ ∧ decreaseSIM s₃ debt = .ok s'

theorem Cancels.deposits {debt coll issued : ℕ} (h : Cancels s s' debt coll issued) : debt ≤ s.totalSIMDeposits ∧
    s'.totalSIMDeposits = s.totalSIMDeposits - debt ∧ s'.WSTETH = s.WSTETH := by
  obtain ⟨s₁, gain, loss, s₂, s₃, h1, h2, h3, h4⟩ := h
  obtain ⟨e, G, rfl⟩ := triggerSHADYIssuance_ok h1
  obtain ⟨hle, -, -, -, e', -, rfl⟩ := computeRewardsPerUnitStaked_ok h2
  simp only [updateRewardSumAndProduct, assert_bind, usub_bind, umul_bind, uadd_bind] at h3
  obtain ⟨-, -, -, -, h3⟩ := h3
  obtain ⟨⟨newP, scale, epoch⟩, -, h3⟩ := bind_ok.1 h3
  simp only [assert_bind, pure_ok] at h3
  obtain ⟨-, rfl⟩ := h3
  simp only [decreaseSIM, usub_bind, pure_ok] at h4
  obtain ⟨-, rfl⟩ := h4
  exact ⟨hle, rfl, rfl⟩

/-- the collateral completes the offset -/
theorem Cancels.offset {s'' : Pool} {debt coll issued : ℕ} (h : Cancels s s' debt coll issued)
    (hskip : ¬ (s.totalSIMDeposits = 0 ∨ debt = 0)) (hr : receiveWSTETH s' coll = .ok s'') :
    offset s debt coll issued = .ok s'' := by
  obtain ⟨s₁, gain, loss, s₂, s₃, h1, h2, h3, h4⟩ := h
  rw [StabilityPool.offset, if_neg hskip, h1, ok_bind, h2, ok_bind]
  dsimp only
  rw [h3, ok_bind, moveOffsetCollAndDebt, h4, ok_bind]
  exact hr

/-! ## Depositor calls -/

/-- the snapshot a deposit of `d` gets; a deposit of 0 has none -/
def snapshotFor (s : Pool) (d : ℕ) : Snapshots :=
  if d = 0 then ⟨0, 0, 0, 0, 0⟩
  else
    { P := s.P
      S := s.epochToScaleToSum s.currentEpoch s.currentScale
      G := s.epochToScaleToG s.currentEpoch s.currentScale
      scale := s.currentScale
      epoch := s.currentEpoch }

/-- a depositor call: the deposit of `a`, worth `c` with a gain of `w`, is paid `w` and becomes a deposit of `d` -/
structure DepositorStep (s s' : Pool) (a : Address) (c d w : ℕ) : Prop where
  compounded : getCompoundedSIMDeposit s a = .ok c
  gain : getDepositorWSTETHGain s a = .ok w
  total : s'.totalSIMDeposits + c = s.totalSIMDeposits + d
  coll : s'.WSTETH + w = s.WSTETH
  deposits : s'.deposits = Function.update s.deposits a d
  snapshots : s'.depositSnapshots = Function.update s.depositSnapshots a (snapshotFor s' d)
  product : s'.P = s.P ∧ s'.currentScale = s.currentScale ∧ s'.currentEpoch = s.currentEpoch
  sum : s'.epochToScaleToSum = s.epochToScaleToSum
  lossError : s'.lastSIMLossError_Offset = s.lastSIMLossError_Offset
  gainError : s'.lastWSTETHError_Offset = s.lastWSTETHError_Offset

theorem sendWSTETHGainToDepositor_ok {w : ℕ} (h : sendWSTETHGainToDepositor s w = .ok s') :
    w ≤ s.WSTETH ∧ s' = { s with WSTETH := s.WSTETH - w } := by
  unfold sendWSTETHGainToDepositor at h
  split_ifs at h with hw
  · cases h
    exact ⟨by omega, by simp [hw]⟩
  · simp only [usub_bind, pure_ok] at h
    exact ⟨h.1, h.2.symm⟩

theorem sendSIMToDepositor_ok {x : ℕ} (h : sendSIMToDepositor s x = .ok s') :
    x ≤ s.totalSIMDeposits ∧ s' = { s with totalSIMDeposits := s.totalSIMDeposits - x } := by
  unfold sendSIMToDepositor decreaseSIM at h
  split_ifs at h with hx
  · cases h
    exact ⟨by omega, by simp [hx]⟩
  · simp only [usub_bind, pure_ok] at h
    exact ⟨h.1, h.2.symm⟩

theorem provideToSP_ok {a : Address} {amount issued : ℕ} {p : Payout}
    (h : provideToSP s a amount issued = .ok (s', p)) :
    ∃ c, DepositorStep s s' a c (c + amount) p.wsteth := by
  simp only [provideToSP, require_bind] at h
  obtain ⟨-, h⟩ := h
  obtain ⟨s₁, h1, h⟩ := bind_ok.1 h
  obtain ⟨e, G, rfl⟩ := triggerSHADYIssuance_ok h1
  obtain ⟨w, hw, h⟩ := bind_ok.1 h
  obtain ⟨c, hc, h⟩ := bind_ok.1 h
  obtain ⟨_, -, h⟩ := bind_ok.1 h
  obtain ⟨_, -, h⟩ := bind_ok.1 h
  simp only [receiveSIM, bind_ok, uadd_ok, pure_ok, Prod.mk.injEq] at h
  obtain ⟨_, ⟨_, ⟨-, rfl⟩, rfl⟩, _, ⟨-, rfl⟩, s₂, h2, rfl, rfl⟩ := h
  obtain ⟨hle, rfl⟩ := sendWSTETHGainToDepositor_ok h2
  exact ⟨c, hc, hw, by simp [updateDepositAndSnapshots]; omega, Nat.sub_add_cancel hle, rfl, rfl, ⟨rfl, rfl, rfl⟩,
    rfl, rfl, rfl⟩

theorem withdrawFromSP_ok {a : Address} {amount issued lowestICR : ℕ} {p : Payout}
    (h : withdrawFromSP s a amount issued lowestICR = .ok (s', p)) :
    ∃ c, p.sim = min amount c ∧ DepositorStep s s' a c (c - p.sim) p.wsteth := by
  simp only [withdrawFromSP, requireUserHasDeposit, require_bind] at h
  obtain ⟨-, -, h⟩ := h
  obtain ⟨s₁, h1, h⟩ := bind_ok.1 h
  obtain ⟨e, G, rfl⟩ := triggerSHADYIssuance_ok h1
  obtain ⟨w, hw, h⟩ := bind_ok.1 h
  obtain ⟨c, hc, h⟩ := bind_ok.1 h
  obtain ⟨_, -, h⟩ := bind_ok.1 h
  obtain ⟨_, -, h⟩ := bind_ok.1 h
  obtain ⟨s₂, h2, h⟩ := bind_ok.1 h
  obtain ⟨hle, rfl⟩ := sendSIMToDepositor_ok h2
  simp only [usub_bind] at h
  obtain ⟨-, h⟩ := h
  obtain ⟨s₃, h3, h⟩ := bind_ok.1 h
  obtain ⟨hlew, rfl⟩ := sendWSTETHGainToDepositor_ok h3
  cases h
  refine ⟨c, rfl, hc, hw, ?_, Nat.sub_add_cancel hlew, rfl, rfl, ⟨rfl, rfl, rfl⟩, rfl, rfl, rfl⟩
  simp only [updateDepositAndSnapshots] at hle ⊢
  omega

theorem withdrawWSTETHGainToTrove_ok {a : Address} {issued troveStatus : ℕ} {p : Payout}
    (h : withdrawWSTETHGainToTrove s a issued troveStatus = .ok (s', p)) :
    ∃ c, DepositorStep s s' a c c p.wsteth := by
  simp only [withdrawWSTETHGainToTrove, requireUserHasDeposit, require_bind] at h
  obtain ⟨-, -, h⟩ := h
  obtain ⟨_, -, h⟩ := bind_ok.1 h
  simp only [require_bind] at h
  obtain ⟨-, h⟩ := h
  obtain ⟨s₁, h1, h⟩ := bind_ok.1 h
  obtain ⟨e, G, rfl⟩ := triggerSHADYIssuance_ok h1
  obtain ⟨w, hw, h⟩ := bind_ok.1 h
  obtain ⟨c, hc, h⟩ := bind_ok.1 h
  obtain ⟨_, -, h⟩ := bind_ok.1 h
  obtain ⟨_, -, h⟩ := bind_ok.1 h
  simp only [usub_bind, pure_ok, Prod.mk.injEq] at h
  obtain ⟨hle, rfl, rfl⟩ := h
  exact ⟨c, hc, hw, rfl, Nat.sub_add_cancel hle, rfl, rfl, ⟨rfl, rfl, rfl⟩, rfl, rfl, rfl⟩

/-- **One call.** A successful call of the pool is a depositor call, an offset that is a no-op, or an `OffsetStep`. -/
theorem exec_ok {call : Call} (h : exec s call = .ok s') :
    ((∀ debt coll issued, call ≠ .offset debt coll issued) ∧ ∃ a c d w, DepositorStep s s' a c d w) ∨
      ∃ debt coll issued, call = .offset debt coll issued ∧
        ((s' = s ∧ (s.totalSIMDeposits = 0 ∨ debt = 0)) ∨ OffsetStep s s' debt coll) := by
  cases call with
  | provideToSP a amount issued =>
    obtain ⟨⟨_, p⟩, hp, ⟨⟩⟩ := bind_ok.1 h
    obtain ⟨c, hstep⟩ := provideToSP_ok hp
    exact .inl ⟨nofun, a, c, _, _, hstep⟩
  | withdrawFromSP a amount issued lowestICR =>
    obtain ⟨⟨_, p⟩, hp, ⟨⟩⟩ := bind_ok.1 h
    obtain ⟨c, -, hstep⟩ := withdrawFromSP_ok hp
    exact .inl ⟨nofun, a, c, _, _, hstep⟩
  | withdrawWSTETHGainToTrove a issued troveStatus =>
    obtain ⟨⟨_, p⟩, hp, ⟨⟩⟩ := bind_ok.1 h
    obtain ⟨c, hstep⟩ := withdrawWSTETHGainToTrove_ok hp
    exact .inl ⟨nofun, a, c, _, _, hstep⟩
  | offset debt coll issued => exact .inr ⟨debt, coll, issued, rfl, offset_ok h⟩

end SimContracts.StabilityPool
