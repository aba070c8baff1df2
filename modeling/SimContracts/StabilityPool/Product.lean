/-
The running product `P` of the Stability Pool over whole runs. The contract's header gives 1e9 as its minimum; one
offset rescales by one factor of 1e9 only, so an offset that leaves less than about 1e18/P of 1e18 parts of the pool
takes `P` below the minimum, and a second one takes it to 0, where the assertion `newP > 0` fails.

Results:
  product_in_range_iff   the states of a run all have 1e9 ≤ P ≤ 1e18 iff every successful offset leaves enough
  product_one            two near-emptying offsets in a row: P = 1, and the next offset fails its assertion
-/
import SimContracts.StabilityPool.Steps

namespace SimContracts.StabilityPool

open Solidity

variable {s s' : Pool}

/-! ## What an offset leaves -/

/-- the documented range of the product -/
structure InRange (s : Pool) : Prop where
  min : SCALE_FACTOR ≤ s.P
  max : s.P ≤ DECIMAL_PRECISION

/-- what an offset of `debt` leaves of the pool, in 1e-18 units and counting the error carried from the last offset -/
def leftover (s : Pool) (debt : ℕ) : ℕ :=
  (s.totalSIMDeposits - debt) * DECIMAL_PRECISION + s.lastSIMLossError_Offset

/-- the call is not an offset, offsets nothing, empties the pool (all of it, or up to the rounding), or leaves more
than 1/P of it, the quotient 1e18/P rounded up -/
def LeavesEnough (s : Pool) : Call → Prop
  | .offset debt _ _ => debt = 0 ∨ debt = s.totalSIMDeposits ∨ leftover s debt ≤ s.totalSIMDeposits ∨
      s.totalSIMDeposits * ((DECIMAL_PRECISION + s.P - 1) / s.P) < leftover s debt
  | _ => True

/-- every offset is for at most the pool's deposits, as TroveManager calls it -/
def WithinDeposits (s : Pool) : Call → Prop
  | .offset debt _ _ => debt ≤ s.totalSIMDeposits
  | _ => True

instance (s : Pool) : ∀ call, Decidable (LeavesEnough s call)
  | .offset _ _ _ => inferInstanceAs (Decidable (_ ∨ _ ∨ _ ∨ _))
  | .provideToSP _ _ _ | .withdrawFromSP _ _ _ _ | .withdrawWSTETHGainToTrove _ _ _ => isTrue trivial

instance (s : Pool) : ∀ call, Decidable (WithinDeposits s call)
  | .offset _ _ _ => inferInstanceAs (Decidable (_ ≤ _))
  | .provideToSP _ _ _ | .withdrawFromSP _ _ _ _ | .withdrawWSTETHGainToTrove _ _ _ => isTrue trivial

theorem ceil_le_iff {p f n : ℕ} (hp : 0 < p) : (n + p - 1) / p ≤ f ↔ n ≤ p * f := by
  rw [← Nat.lt_succ_iff, Nat.div_lt_iff_lt_mul hp, Nat.succ_mul, Nat.mul_comm f p]
  omega

/-- the product factor is at least `c` iff more than `c` times the pool is left -/
theorem factor_ge_iff {debt c : ℕ} (hlt : debt < s.totalSIMDeposits)
    (he : s.lastSIMLossError_Offset ≤ debt * DECIMAL_PRECISION) (hc0 : 0 < c) (hc1 : c ≤ DECIMAL_PRECISION) :
    c ≤ DECIMAL_PRECISION - simLoss s debt ↔ s.totalSIMDeposits * c < leftover s debt := by
  have hD : 0 < s.totalSIMDeposits := by omega
  have hloss : c ≤ DECIMAL_PRECISION - simLoss s debt ↔
      (debt * DECIMAL_PRECISION - s.lastSIMLossError_Offset) / s.totalSIMDeposits < DECIMAL_PRECISION - c := by
    rw [simLoss, if_neg hlt.ne]
    omega
  have hleft : (s.totalSIMDeposits - debt) * DECIMAL_PRECISION =
      s.totalSIMDeposits * DECIMAL_PRECISION - debt * DECIMAL_PRECISION := Nat.sub_mul _ _ _
  have hpart : (DECIMAL_PRECISION - c) * s.totalSIMDeposits =
      s.totalSIMDeposits * DECIMAL_PRECISION - s.totalSIMDeposits * c := by rw [Nat.mul_comm, Nat.mul_sub]
  have hle : debt * DECIMAL_PRECISION ≤ s.totalSIMDeposits * DECIMAL_PRECISION := Nat.mul_le_mul_right _ hlt.le
  have hle' : s.totalSIMDeposits * c ≤ s.totalSIMDeposits * DECIMAL_PRECISION := Nat.mul_le_mul_left _ hc1
  rw [hloss, Nat.div_lt_iff_lt_mul hD, leftover, hleft, hpart]
  omega

/-- the factor of an offset makes the product start anew or keeps it at 1e9 iff the offset leaves enough -/
theorem factor_iff {debt coll issued : ℕ} (hr : InRange s) (hne : debt ≠ 0) (hle : debt ≤ s.totalSIMDeposits)
    (he : debt ≠ s.totalSIMDeposits → s.lastSIMLossError_Offset ≤ debt * DECIMAL_PRECISION) :
    (DECIMAL_PRECISION - simLoss s debt = 0 ∨ DECIMAL_PRECISION ≤ s.P * (DECIMAL_PRECISION - simLoss s debt)) ↔
      LeavesEnough s (.offset debt coll issued) := by
  have hP : 0 < s.P := lt_of_lt_of_le (by decide) hr.min
  have hpos : 0 < DECIMAL_PRECISION := by decide
  rw [LeavesEnough]
  by_cases hall : debt = s.totalSIMDeposits
  · have hloss : simLoss s debt = DECIMAL_PRECISION := if_pos hall
    exact iff_of_true (.inl (by rw [hloss, Nat.sub_self])) (.inr (.inl hall))
  · have hlt : debt < s.totalSIMDeposits := lt_of_le_of_ne hle hall
    have hceil0 : 0 < (DECIMAL_PRECISION + s.P - 1) / s.P := Nat.div_pos (by omega) hP
    have hceil1 : (DECIMAL_PRECISION + s.P - 1) / s.P ≤ DECIMAL_PRECISION := by
      rw [ceil_le_iff hP]
      exact Nat.le_mul_of_pos_left _ hP
    have hone := factor_ge_iff hlt (he hall) Nat.one_pos hpos
    have hceil := factor_ge_iff hlt (he hall) hceil0 hceil1
    rw [ceil_le_iff hP] at hceil
    rw [hceil]
    omega

/-! ## One step -/

/-- multiplying by `f` keeps the product in range iff `P * f` is at least 1e18, or `f` starts a new epoch -/
theorem productStep_range {f p scale epoch : ℕ} (hr : InRange s) (hf : f ≤ DECIMAL_PRECISION)
    (h : ProductStep s f p scale epoch) :
    p ≤ DECIMAL_PRECISION ∧ (SCALE_FACTOR ≤ p ↔ f = 0 ∨ DECIMAL_PRECISION ≤ s.P * f) := by
  have hPf : s.P * f ≤ DECIMAL_PRECISION * DECIMAL_PRECISION := Nat.mul_le_mul hr.max hf
  cases h with
  | epoch h0 hp => exact ⟨hp.le, iff_of_true (by rw [hp]; decide) (.inl h0)⟩
  | scale h0 hlt hp =>
    simp only [SCALE_FACTOR, DECIMAL_PRECISION] at *
    omega
  | same h0 hle hp =>
    simp only [SCALE_FACTOR, DECIMAL_PRECISION] at *
    omega

theorem simLoss_le {debt : ℕ} (hlt : debt < s.totalSIMDeposits) : simLoss s debt ≤ DECIMAL_PRECISION := by
  rw [simLoss, if_neg hlt.ne]
  have hD : 0 < s.totalSIMDeposits := by omega
  have h : (debt * DECIMAL_PRECISION - s.lastSIMLossError_Offset) / s.totalSIMDeposits < DECIMAL_PRECISION := by
    rw [Nat.div_lt_iff_lt_mul hD]
    calc debt * DECIMAL_PRECISION - s.lastSIMLossError_Offset ≤ debt * DECIMAL_PRECISION := Nat.sub_le _ _
      _ < DECIMAL_PRECISION * s.totalSIMDeposits := by
        rw [Nat.mul_comm]
        exact Nat.mul_lt_mul_of_pos_left hlt (by decide)
  exact h

/-- **One offset.** It keeps the range iff it leaves enough of the pool. -/
theorem offsetStep_range {debt coll issued : ℕ} (hr : InRange s) (h : OffsetStep s s' debt coll) :
    InRange s' ↔ LeavesEnough s (.offset debt coll issued) := by
  obtain ⟨hmax, hmin⟩ := productStep_range hr (Nat.sub_le _ _) h.product
  have hiff : InRange s' ↔ SCALE_FACTOR ≤ s'.P := ⟨fun hr' => hr'.min, fun hr' => ⟨hr', hmax⟩⟩
  rw [hiff, hmin, factor_iff hr h.debt_pos.ne' h.debt_le h.carry_le]

theorem exec_range {call : Call} (hr : InRange s) (h : exec s call = .ok s') : InRange s' ↔ LeavesEnough s call := by
  rcases exec_ok h with ⟨hcall, _, _, _, _, hstep⟩ | ⟨debt, coll, issued, rfl, ⟨rfl, h0⟩ | hstep⟩
  · have hP : s'.P = s.P := hstep.product.1
    refine iff_of_true ⟨hP ▸ hr.min, hP ▸ hr.max⟩ ?_
    cases call with
    | offset debt coll issued => exact absurd rfl (hcall debt coll issued)
    | _ => trivial
  · refine iff_of_true hr ?_
    rcases h0 with h0 | h0
    · simp only [LeavesEnough, h0, Nat.zero_mul]
      omega
    · exact .inl h0
  · exact offsetStep_range hr hstep

/-! ## The assertions of an offset -/

theorem assertsHold_triggerSHADYIssuance (s : Pool) (issued : ℕ) : AssertsHold (triggerSHADYIssuance s issued) := by
  unfold triggerSHADYIssuance updateG
  split_ifs
  · exact .ok _
  · refine .bind ?_ fun _ _ => .bind (assertsHold_umul _ _) fun _ _ => .bind (assertsHold_uadd _ _) fun _ _ => .pure _
    exact .bind (assertsHold_umul _ _) fun _ _ => .bind (assertsHold_uadd _ _) fun _ _ =>
      .bind (assertsHold_udiv _ _) fun _ _ => .bind (assertsHold_umul _ _) fun _ _ =>
      .bind (assertsHold_usub _ _) fun _ _ => .pure _

theorem assertsHold_computeRewardsPerUnitStaked (s : Pool) (coll debt : ℕ) (hle : debt ≤ s.totalSIMDeposits) :
    AssertsHold (computeRewardsPerUnitStaked s coll debt s.totalSIMDeposits) := by
  refine .bind (assertsHold_umul _ _) fun _ _ => .bind (assertsHold_uadd _ _) fun _ _ =>
    .bind (assertsHold_assert hle) fun _ _ => .bind ?_ fun _ _ => .bind (assertsHold_udiv _ _) fun _ _ =>
    .bind (assertsHold_umul _ _) fun _ _ => .bind (assertsHold_usub _ _) fun _ _ => .pure _
  unfold computeSIMLossPerUnitStaked
  split_ifs
  · exact .ok _
  · exact .bind (assertsHold_umul _ _) fun _ _ => .bind (assertsHold_usub _ _) fun _ _ =>
      .bind (assertsHold_udiv _ _) fun _ _ => .bind (assertsHold_uadd _ _) fun _ _ =>
      .bind (assertsHold_umul _ _) fun _ _ => .bind (assertsHold_usub _ _) fun _ _ => .pure _

theorem assertsHold_updateProduct (s : Pool) (f : ℕ) : AssertsHold (updateProduct s f) := by
  unfold updateProduct
  split_ifs
  · exact .bind (assertsHold_uadd128 _ _) fun _ _ => .pure _
  · refine .bind (assertsHold_umul _ _) fun _ _ => .bind (assertsHold_udiv _ _) fun _ _ => ?_
    split_ifs
    · exact .bind (assertsHold_umul _ _) fun _ _ => .bind (assertsHold_umul _ _) fun _ _ =>
        .bind (assertsHold_udiv _ _) fun _ _ => .bind (assertsHold_uadd128 _ _) fun _ _ => .pure _
    · exact .pure _

theorem assertsHold_updateRewardSumAndProduct {gain loss : ℕ} (hr : InRange s) (hloss : loss ≤ DECIMAL_PRECISION)
    (hf : DECIMAL_PRECISION - loss = 0 ∨ DECIMAL_PRECISION ≤ s.P * (DECIMAL_PRECISION - loss)) :
    AssertsHold (updateRewardSumAndProduct s gain loss) := by
  unfold updateRewardSumAndProduct
  refine .bind (assertsHold_assert hloss) fun _ _ => .bind (assertsHold_usub _ _) fun f hsub =>
    .bind (assertsHold_umul _ _) fun _ _ => .bind (assertsHold_uadd _ _) fun _ _ =>
    .bind (assertsHold_updateProduct _ _) fun r hp => ?_
  obtain ⟨newP, scale, epoch⟩ := r
  obtain ⟨-, rfl⟩ := usub_ok.1 hsub
  have hmin : SCALE_FACTOR ≤ newP := (productStep_range hr (Nat.sub_le _ _) (updateProduct_ok hp)).2.2 hf
  have hpos : 0 < newP := lt_of_lt_of_le (by decide) hmin
  exact .bind (assertsHold_assert hpos) fun _ _ => .pure _

/-- in range and leaving enough, an offset fails none of its assertions: not `newP > 0`, not the other two -/
theorem assertsHold_offset {debt coll issued : ℕ} (hr : InRange s) (hle : debt ≤ s.totalSIMDeposits)
    (hleft : LeavesEnough s (.offset debt coll issued)) : AssertsHold (offset s debt coll issued) := by
  unfold offset
  split_ifs with h0
  · exact .ok _
  · refine .bind (assertsHold_triggerSHADYIssuance _ _) fun s₁ h1 => ?_
    obtain ⟨e, G, rfl⟩ := triggerSHADYIssuance_ok h1
    refine .bind (assertsHold_computeRewardsPerUnitStaked _ _ _ hle) fun r h2 => ?_
    obtain ⟨gain, loss, s₂⟩ := r
    obtain ⟨-, hcarry, rfl, hl, le, -, rfl⟩ := computeRewardsPerUnitStaked_ok h2
    obtain rfl : loss = simLoss s debt := hl
    have hfactor := (factor_iff hr (by omega) hle hcarry).2 hleft
    have hloss : simLoss s debt ≤ DECIMAL_PRECISION := by
      by_cases hall : debt = s.totalSIMDeposits
      · exact (if_pos hall).le
      · exact simLoss_le (lt_of_le_of_ne hle hall)
    refine .bind (assertsHold_updateRewardSumAndProduct ⟨hr.min, hr.max⟩ hloss hfactor) fun _ _ => ?_
    exact .bind (.bind (assertsHold_usub _ _) fun _ _ => .pure _) fun _ _ =>
      .bind (assertsHold_uadd _ _) fun _ _ => .pure _

/-! ## Whole runs -/

theorem init_range : InRange init := ⟨by decide, le_rfl⟩

/-- **Range of the product.** Over a run of the pool from its deployment, with every offset within the deposits: all
states have 1e9 ≤ P ≤ 1e18 exactly if every successful offset leaves enough of the pool; and if every offset does,
none ever fails an assertion. -/
theorem product_in_range_iff (calls : List Call) (hdebt : Along exec WithinDeposits init calls) :
    ((∀ k, InRange (run exec init (calls.take k))) ↔
      Along exec (fun s call => (∃ s', exec s call = .ok s') → LeavesEnough s call) init calls) ∧
    (Along exec LeavesEnough init calls → ∀ k debt coll issued, calls[k]? = some (.offset debt coll issued) →
      AssertsHold (exec (run exec init (calls.take k)) (.offset debt coll issued))) := by
  have hrange := run_inv_iff exec (P := LeavesEnough) (fun _ _ _ hr h => exec_range hr h) init calls init_range
  refine ⟨hrange, fun hleft k debt coll issued hcall => ?_⟩
  have hr : InRange (run exec init (calls.take k)) :=
    run_inv exec (fun _ _ _ hr hl h => (exec_range hr h).2 hl) init _ init_range (along_take exec hleft k)
  exact assertsHold_offset hr (along_get exec hdebt hcall) (along_get exec hleft hcall)

/-- two deposits that fill the pool to 1.5e18, each offset but for two units -/
def nearEmptying : List Call :=
  [.provideToSP 1 1500000000000000000 0, .offset 1499999999999999998 800000000000000 0,
   .provideToSP 1 1499999999999999998 0, .offset 1499999999999999998 800000000000000 0]

/-- a half-empty pool keeps its product -/
theorem product_in_range_half :
    (∀ k, InRange (run exec init ([Call.provideToSP 1 (10 ^ 18) 0, .offset (10 ^ 18 / 2) 0 0].take k))) ∧
      AssertsHold (exec (run exec init [.provideToSP 1 (10 ^ 18) 0]) (.offset (10 ^ 18 / 2) 0 0)) := by
  have hleft : Along exec LeavesEnough init [.provideToSP 1 (10 ^ 18) 0, .offset (10 ^ 18 / 2) 0 0] := by
    decide +kernel
  obtain ⟨hrange, hassert⟩ :=
    product_in_range_iff [.provideToSP 1 (10 ^ 18) 0, .offset (10 ^ 18 / 2) 0 0] (by decide +kernel)
  exact ⟨hrange.2 ⟨fun _ => hleft.1, fun _ => hleft.2.1, trivial⟩, hassert hleft 1 _ _ _ rfl⟩

/-- the product leaves its range: 1e9 after the first offset, 1 after the second; with 1.5e18 in the pool again, the
next such offset fails its assertion -/
theorem product_one :
    Along exec WithinDeposits init (nearEmptying ++ [.provideToSP 1 1499999999999999998 0]) ∧
      (run exec init nearEmptying).P = 1 ∧
      exec (run exec init (nearEmptying ++ [.provideToSP 1 1499999999999999998 0]))
        (.offset 1499999999999999998 800000000000000 0) = .error (.panic 0x01) :=
  ⟨by decide +kernel, by decide +kernel, rfl⟩

end SimContracts.StabilityPool
