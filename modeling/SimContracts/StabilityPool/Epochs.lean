/-
Epochs of the Stability Pool. A new epoch starts when the loss per unit staked, which is rounded up, reaches 1e18; then
every older deposit reads 0. The pool's total is reduced by the debt itself. The two agree when the offset takes the whole
pool, but a debt that leaves at most one unit in 1e18 of it rounds up to a loss of 1e18 as well.

Results:
  epoch_iff_emptied    an offset starts a new epoch iff it empties the pool, except when it leaves too little
  epoch_with_deposits  a pool of 2 SIM: an offset that leaves 1 wei writes the deposit to zero
-/
import SimContracts.StabilityPool.Product

namespace SimContracts.StabilityPool

open Solidity

variable {s s' : Pool} {debt coll : ℕ}

/-- the product factor is 0 iff the offset takes the pool, up to one unit in 1e18 -/
theorem factor_zero_iff (hle : debt ≤ s.totalSIMDeposits)
    (he : debt ≠ s.totalSIMDeposits → s.lastSIMLossError_Offset ≤ debt * DECIMAL_PRECISION) :
    DECIMAL_PRECISION - simLoss s debt = 0 ↔ debt = s.totalSIMDeposits ∨ leftover s debt ≤ s.totalSIMDeposits := by
  by_cases hall : debt = s.totalSIMDeposits
  · have hloss : simLoss s debt = DECIMAL_PRECISION := if_pos hall
    rw [hloss, Nat.sub_self]
    exact iff_of_true rfl (.inl hall)
  · have hone := factor_ge_iff (lt_of_le_of_ne hle hall) (he hall) Nat.one_pos (by decide)
    rw [Nat.mul_one] at hone
    omega

theorem ProductStep.epoch_iff {f newP scale epoch : ℕ} (h : ProductStep s f newP scale epoch) :
    epoch = s.currentEpoch + 1 ↔ f = 0 := by
  cases h with
  | epoch hf _ _ he => exact iff_of_true he hf
  | scale hf _ _ _ he => exact iff_of_false (by omega) hf
  | same hf _ _ _ he => exact iff_of_false (by omega) hf

theorem OffsetStep.epoch_iff (h : OffsetStep s s' debt coll) :
    s'.currentEpoch = s.currentEpoch + 1 ↔ debt = s.totalSIMDeposits ∨ leftover s debt ≤ s.totalSIMDeposits :=
  h.product.epoch_iff.trans (factor_zero_iff h.debt_le h.carry_le)

/-- **Epochs and emptied pools.** An offset starts a new epoch exactly if it leaves no SIM in the pool, iff it takes the
whole pool or leaves more than one unit in 1e18 of it, counting the error carried from the last offset. -/
theorem epoch_iff_emptied (s s' : Pool) (debt coll issued : ℕ) (hpos : 0 < debt) (hle : debt ≤ s.totalSIMDeposits)
    (h : offset s debt coll issued = .ok s') :
    (s'.currentEpoch = s.currentEpoch + 1 ↔ s'.totalSIMDeposits = 0) ↔
      debt = s.totalSIMDeposits ∨ s.totalSIMDeposits < leftover s debt := by
  rcases offset_ok h with ⟨-, h0⟩ | hstep
  · omega
  rw [hstep.epoch_iff, hstep.total]
  omega

/-- half of the pool -/
theorem epoch_iff_emptied_half :
    ∃ s', offset (run exec init [.provideToSP 1 (10 ^ 18) 0]) (10 ^ 18 / 2) 0 0 = .ok s' ∧
      ((s'.currentEpoch = (run exec init [.provideToSP 1 (10 ^ 18) 0]).currentEpoch + 1 ↔ s'.totalSIMDeposits = 0) ↔
        10 ^ 18 / 2 = (run exec init [.provideToSP 1 (10 ^ 18) 0]).totalSIMDeposits ∨
          (run exec init [.provideToSP 1 (10 ^ 18) 0]).totalSIMDeposits <
            leftover (run exec init [.provideToSP 1 (10 ^ 18) 0]) (10 ^ 18 / 2)) := by
  obtain ⟨s', hs'⟩ : ∃ s', offset (run exec init [.provideToSP 1 (10 ^ 18) 0]) (10 ^ 18 / 2) 0 0 = .ok s' :=
    Res.failure_none (by decide +kernel)
  exact ⟨s', hs', epoch_iff_emptied _ s' _ 0 0 (by decide) (by decide +kernel) hs'⟩

/-- a deposit of 2 SIM and an offset of all but 1 wei: a new epoch starts with 1 wei in the pool, the deposit reads 0 -/
theorem epoch_with_deposits :
    let s := run exec init [.provideToSP 1 (2 * 10 ^ 18) 0]
    let s' := run exec init [.provideToSP 1 (2 * 10 ^ 18) 0, .offset (2 * 10 ^ 18 - 1) 0 0]
    s.totalSIMDeposits = 2 * 10 ^ 18 ∧ s'.currentEpoch = s.currentEpoch + 1 ∧ s'.totalSIMDeposits = 1 ∧
      getCompoundedSIMDeposit s' 1 = .ok 0 := by
  decide +kernel

end SimContracts.StabilityPool
