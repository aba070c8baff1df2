/-
The arithmetic of an offset, in the states in which a liquidation makes one. The debt of a batch is the whole pool, or has the
debt of a whole trove in it, which is never below MIN_NET_DEBT. The error that is carried from the last offset is at most the
deposits it was made on. So the error is below the debt it is subtracted from while the deposits stay below 1e36.

Results:
  offset_arithmetic   the subtraction and the two assertions of `_computeRewardsPerUnitStaked` and
                      `_updateRewardSumAndProduct` hold in every liquidation
-/
import SimContracts.StabilityPool.Product
import SimContracts.Protocol.PoolRuns

namespace SimContracts.StabilityPool

open Solidity

variable {s s' : Pool}

/-- the error an offset carries on is at most the deposits it was made on -/
theorem exec_lossError {call : Call} (h : exec s call = .ok s') :
    s'.lastSIMLossError_Offset = s.lastSIMLossError_Offset ∨ s'.lastSIMLossError_Offset ≤ s.totalSIMDeposits := by
  rcases exec_ok h with ⟨-, a, x, d, w, hstep⟩ | ⟨debt, coll, issued, -, ⟨rfl, -⟩ | hstep⟩
  · exact .inl hstep.lossError
  · exact .inl rfl
  · exact .inr hstep.lossError

/-- where the arithmetic of the loss cannot fail: both assertions hold and the error can be subtracted -/
structure LossArithmetic (s : Pool) (debt coll : ℕ) : Prop where
  debt_le : debt ≤ s.totalSIMDeposits
  carry : debt ≠ s.totalSIMDeposits → ∃ SIMLossNumerator,
    usub (debt * DECIMAL_PRECISION) s.lastSIMLossError_Offset = .ok SIMLossNumerator
  loss_le : ∀ gain loss s', computeRewardsPerUnitStaked s coll debt s.totalSIMDeposits = .ok (gain, loss, s') →
    loss ≤ DECIMAL_PRECISION

theorem lossArithmetic {debt coll : ℕ} (hle : debt ≤ s.totalSIMDeposits)
    (hcarry : debt ≠ s.totalSIMDeposits → s.lastSIMLossError_Offset ≤ debt * DECIMAL_PRECISION) :
    LossArithmetic s debt coll := by
  refine ⟨hle, fun hne => ⟨_, usub_ok.2 ⟨hcarry hne, rfl⟩⟩, fun gain loss s' h => ?_⟩
  obtain ⟨-, -, -, rfl, -⟩ := computeRewardsPerUnitStaked_ok h
  by_cases hall : debt = s.totalSIMDeposits
  · exact (if_pos hall).le
  · exact simLoss_le (lt_of_le_of_ne hle hall)

end SimContracts.StabilityPool

namespace SimContracts.Protocol

open Solidity TroveManager

variable {c : Config} {s s' : System} {b : Address} {price : ℕ} {v v' : LiquidationSequence} {single : LiquidationValues}

/-! ## The debt of a batch -/

/-- nothing is offset so far, or the debt of a whole trove, or the pool is used up -/
def OffsetsEnough (v : LiquidationSequence) : Prop :=
  v.totals.totalDebtToOffset = 0 ∨ MIN_NET_DEBT ≤ v.totals.totalDebtToOffset ∨ v.remainingSIMInStabPool = 0

/-- with its rewards an active trove owes at least its recorded debt -/
theorem TroveManager.Liquidated.minDebt {SIMInStabPool : ℕ} (h : Liquidated c s s' b single SIMInStabPool)
    (hreg : Registry s) : MIN_NET_DEBT ≤ single.entireTroveDebt := by
  obtain ⟨-, hactive, -, -⟩ := h.closes hreg
  obtain ⟨t, -, -, -, ht, hdebt, -⟩ := h.steps
  obtain ⟨-, -, hentire, -⟩ := getEntireDebtAndColl_ok ht
  have hmin := hreg.minDebt b hactive
  omega

theorem OffsetsEnough.step (h : OffsetsEnough v) (hv : InSequence s v) (hstep : SequenceStep c b v v' single) :
    OffsetsEnough v' := by
  have hremaining := hstep.remaining
  unfold OffsetsEnough at h ⊢
  rw [hstep.totals]
  dsimp only [LiquidationTotals.add]
  rcases hstep.state with ⟨-, rfl⟩ | ⟨-, hl⟩
  · simp only [LiquidationValues.zero] at hremaining ⊢
    omega
  · have hmin := hl.minDebt hv.registry
    have hwhole := hl.split.whole
    omega

theorem OffsetsEnough.run (h : OffsetsEnough v) (hv : InSequence s v) (hseq : Sequence c v v') : OffsetsEnough v' := by
  induction hseq with
  | refl => exact h
  | tail hbefore hstep ih =>
    obtain ⟨user, single, hstep⟩ := hstep
    exact ih.step (hv.run hbefore) hstep

/-! ## The carried error -/

/-- the error is below that of a pool with as many deposits as the bound -/
def CarryBelow (bound : ℕ) (s : System) : Prop := s.stabilityPool.lastSIMLossError_Offset < bound

theorem reached_carry {bound : ℕ} (calls : List (Tx c)) (hpos : 0 < bound)
    (h : ∀ k, (reached c (calls.take k)).stabilityPool.totalSIMDeposits < bound) : CarryBelow bound (reached c calls) := by
  refine run_inv (exec c) (P := fun s _ => s.stabilityPool.totalSIMDeposits < bound) ?_ (init c) calls hpos
    (along_of_states (exec c) h)
  intro s tx s' hcarry hbelow hexec
  unfold CarryBelow at hcarry ⊢
  rcases exec_pool hexec with hsame | ⟨call, hcall⟩
  · rw [hsame]
    exact hcarry
  · rcases SimContracts.StabilityPool.exec_lossError hcall with hkept | hle
    · rw [hkept]
      exact hcarry
    · exact hle.trans_lt hbelow

/-- **The arithmetic of an offset cannot fail.** If the deposits have always been below 1e36, the debt that a liquidation
offsets is at most the deposits, it exceeds the carried error, and the loss per unit is at most 1e18. -/
theorem offset_arithmetic (c : Config) (calls : List (Tx c))
    (h : ∀ k, (reached c (calls.take k)).stabilityPool.totalSIMDeposits < 10 ^ 36) (price : ℕ) (mode : Bool)
    (v : LiquidationSequence) (hv : Totals c price (reached c calls) mode v) (hpos : 0 < v.totals.totalDebtToOffset)
    (issued : ℕ) (pool : SimContracts.StabilityPool.Pool)
    (hissued : SimContracts.StabilityPool.triggerSHADYIssuance v.s.stabilityPool issued = .ok pool) :
    SimContracts.StabilityPool.LossArithmetic pool v.totals.totalDebtToOffset v.totals.totalCollToSendToSP := by
  obtain ⟨debt, coll, hseq⟩ := hv.sequence
  have hstart : InSequence (reached c calls) (startSequence (reached c calls) debt coll) :=
    .start (reached_registry calls) debt coll
  have henough : OffsetsEnough v := OffsetsEnough.run (.inl rfl) hstart hseq
  obtain ⟨hadded, hpool⟩ := sequence_added hseq
  have hdeposits := hadded.deposits
  have hcarry : CarryBelow (10 ^ 36) (reached c calls) := reached_carry calls (by decide) h
  unfold CarryBelow at hcarry
  obtain ⟨e, G, rfl⟩ := SimContracts.StabilityPool.triggerSHADYIssuance_ok hissued
  refine SimContracts.StabilityPool.lossArithmetic ?_ fun hne => ?_
  · dsimp only
    omega
  · dsimp only at hne ⊢
    have hmin : MIN_NET_DEBT ≤ v.totals.totalDebtToOffset := by
      unfold OffsetsEnough at henough
      omega
    calc v.s.stabilityPool.lastSIMLossError_Offset = (reached c calls).stabilityPool.lastSIMLossError_Offset := by rw [hpool]
      _ ≤ MIN_NET_DEBT * DECIMAL_PRECISION := hcarry.le
      _ ≤ v.totals.totalDebtToOffset * DECIMAL_PRECISION := Nat.mul_le_mul_right _ hmin

/-- the two troves, and 2 SIM of Bob in the Stability Pool -/
def twoInPool : List (Tx exampleConfig) := twoTroves ++ [atPrice (2000 * 10 ^ 18) bob (.provideToSP (2 * 10 ^ 18))]

/-- Carol opens a trove like Alice's, Bob deposits 3 SIM, and Alice is liquidated at half the price -/
def offsetBefore : List (Tx exampleConfig) :=
  twoTroves ++ funded carol ++
    [atPrice (2000 * 10 ^ 18) carol (.openTrove (10 ^ 15) (10 ^ 18) (10 ^ 18) 0 0),
      atPrice (2000 * 10 ^ 18) bob (.provideToSP (3 * 10 ^ 18)), atPrice (1000 * 10 ^ 18) bob (.liquidate 1)]

/-- Carol's debt of 1.005 SIM is offset as well, with the error of the first offset carried -/
theorem offset_arithmetic_carol :
    (reached exampleConfig offsetBefore).stabilityPool.lastSIMLossError_Offset = 3 * 10 ^ 18 ∧
      ∃ v, batchTotals exampleConfig (1000 * 10 ^ 18) (reached exampleConfig offsetBefore) false [3] = .ok v ∧
        v.totals.totalDebtToOffset = 1005 * 10 ^ 15 ∧
        SimContracts.StabilityPool.LossArithmetic v.s.stabilityPool v.totals.totalDebtToOffset
          v.totals.totalCollToSendToSP := by
  have hbelow : ∀ k, (reached exampleConfig (offsetBefore.take k)).stabilityPool.totalSIMDeposits < 10 ^ 36 := by
    have halong : Along (exec exampleConfig) (fun s _ => s.stabilityPool.totalSIMDeposits < 10 ^ 36) (init exampleConfig)
        offsetBefore := by decide +kernel
    intro k
    cases hk : offsetBefore[k]? with
    | some tx => exact along_get (exec exampleConfig) halong hk
    | none =>
      rw [List.take_of_length_le (List.getElem?_eq_none_iff.1 hk)]
      decide +kernel
  obtain ⟨v, hv⟩ : ∃ v, batchTotals exampleConfig (1000 * 10 ^ 18) (reached exampleConfig offsetBefore) false [3] = .ok v :=
    Res.failure_none (by decide +kernel)
  have hdebt : (batchTotals exampleConfig (1000 * 10 ^ 18) (reached exampleConfig offsetBefore) false [3]).map
      (fun v => v.totals.totalDebtToOffset) = .ok (1005 * 10 ^ 15) := by
    decide +kernel
  rw [hv] at hdebt
  have hdebt : v.totals.totalDebtToOffset = 1005 * 10 ^ 15 := Except.ok.inj hdebt
  refine ⟨by decide +kernel, v, hv, hdebt, ?_⟩
  exact offset_arithmetic exampleConfig offsetBefore hbelow (1000 * 10 ^ 18) false v (.inr ⟨[3], hv⟩) (by rw [hdebt]; decide)
    0 v.s.stabilityPool (if_pos (.inr rfl))

end SimContracts.Protocol
