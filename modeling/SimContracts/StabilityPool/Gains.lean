/-
Collateral gains of the Stability Pool over whole runs: what depositors can claim against the pool's `WSTETH`.

An offset adds `gain * P` to the sum of the current epoch and scale; a deposit reads the difference to its snapshot at
its own scale and the whole sum at the next one, so its exact gain grows by at most `gain` per unit of its exact share.
The shares together are at most the pool (`Backed`), so the gains grow by at most `gain * D`, which is the collateral
received less the error carried on. Where the shares are not backed the gains are not either: the defect of the
deposits shows here again.

Results:
  gains_backed        along offsets that charge their debt in full, the gains shown never exceed the collateral
  gains_exceed_pool   after an undercharged offset, one depositor is shown more collateral than the pool has
-/
import SimContracts.StabilityPool.Deposits

namespace SimContracts.StabilityPool

open Solidity

variable {s s' : Pool}

/-! ## The exact gain of a deposit -/

/-- the unrounded gain of a deposit, in units of 1e-18 collateral -/
def exactGain (s : Pool) (a : Address) : ℚ :=
  let t := s.depositSnapshots a
  s.deposits a * (s.epochToScaleToSum t.epoch t.scale - t.S + s.epochToScaleToSum t.epoch (t.scale + 1) / SCALE_FACTOR) /
    t.P

/-- the sums: none below a snapshot, none yet beyond the current epoch and scale -/
structure SumsWf (s : Pool) : Prop where
  snapshot_le : ∀ a, s.deposits a ≠ 0 →
    (s.depositSnapshots a).S ≤ s.epochToScaleToSum (s.depositSnapshots a).epoch (s.depositSnapshots a).scale
  fresh : ∀ epoch scale, s.currentEpoch < epoch ∨ (epoch = s.currentEpoch ∧ s.currentScale < scale) →
    s.epochToScaleToSum epoch scale = 0

theorem gain_zero {a : Address} (h : s.deposits a = 0) : exactGain s a = 0 := by
  simp [exactGain, h]

theorem gain_nonneg (hs : SumsWf s) (a : Address) : 0 ≤ exactGain s a := by
  by_cases hd : s.deposits a = 0
  · rw [gain_zero hd]
  · have hle : ((s.depositSnapshots a).S : ℚ) ≤
      s.epochToScaleToSum (s.depositSnapshots a).epoch (s.depositSnapshots a).scale := by
      exact_mod_cast hs.snapshot_le a hd
    have hfirst := sub_nonneg.2 hle
    unfold exactGain
    positivity

/-- what the getter shows of a gain is at most the gain -/
theorem depositorGain_le {a : Address} {w : ℕ} (hs : SumsWf s) (h : getDepositorWSTETHGain s a = .ok w) :
    (w : ℚ) * DECIMAL_PRECISION ≤ exactGain s a := by
  unfold getDepositorWSTETHGain at h
  split_ifs at h with hd
  · cases h
    simpa using gain_nonneg hs a
  · simp only [getWSTETHGainFromSnapshots, gainFromSnapshots, usub_bind, uadd128_bind, udiv_bind, uadd_bind, umul_bind,
      udiv_ok] at h
    obtain ⟨hle, -, -, -, -, -, -, rfl⟩ := h
    simp only [exactGain]
    generalize s.depositSnapshots a = t at *
    generalize s.epochToScaleToSum t.epoch t.scale = S at *
    generalize s.epochToScaleToSum t.epoch (t.scale + 1) = S' at *
    generalize s.deposits a = d at *
    have hnext : ((S' / SCALE_FACTOR : ℕ) : ℚ) ≤ (S' : ℚ) / SCALE_FACTOR := Nat.cast_div_le
    have hfirst : ((S - t.S : ℕ) : ℚ) = S - t.S := Nat.cast_sub hle
    calc ((d * (S - t.S + S' / SCALE_FACTOR) / t.P / DECIMAL_PRECISION : ℕ) : ℚ) * DECIMAL_PRECISION
        ≤ ((d * (S - t.S + S' / SCALE_FACTOR) / t.P : ℕ) : ℚ) := by
          exact_mod_cast Nat.div_mul_le_self _ _
      _ ≤ ((d * (S - t.S + S' / SCALE_FACTOR) : ℕ) : ℚ) / t.P := Nat.cast_div_le
      _ ≤ d * (S - t.S + S' / SCALE_FACTOR) / t.P := by
          push_cast [hfirst]
          gcongr

theorem shownGain_le (hs : SumsWf s) (a : Address) :
    ((getDepositorWSTETHGain s a).shown : ℚ) * DECIMAL_PRECISION ≤ exactGain s a := by
  cases h : getDepositorWSTETHGain s a with
  | ok w => exact depositorGain_le hs h
  | error e => simpa [Res.shown] using gain_nonneg hs a

/-! ## Writing a sum -/

theorem write_self (m : ℕ → ℕ → ℕ) (epoch scale v : ℕ) : write m epoch scale v epoch scale = v := by
  simp [write]

theorem write_of_ne (m : ℕ → ℕ → ℕ) {epoch scale v e k : ℕ} (h : ¬ (e = epoch ∧ k = scale)) :
    write m epoch scale v e k = m e k := by
  unfold write
  by_cases he : e = epoch
  · subst he
    rw [Function.update_self, Function.update_of_ne fun hk => h ⟨rfl, hk⟩]
  · rw [Function.update_of_ne he]

theorem le_write (m : ℕ → ℕ → ℕ) {epoch scale v : ℕ} (h : m epoch scale ≤ v) (e k : ℕ) :
    m e k ≤ write m epoch scale v e k := by
  by_cases hek : e = epoch ∧ k = scale
  · rw [hek.1, hek.2, write_self]
    exact h
  · rw [write_of_ne m hek]

/-! ## One step -/

theorem OffsetStep.sumsWf {debt coll : ℕ} (h : OffsetStep s s' debt coll) (hs : SumsWf s) : SumsWf s' := by
  constructor
  · intro a hd
    rw [h.deposits] at hd
    rw [h.snapshots, h.sum]
    exact (hs.snapshot_le a hd).trans (le_write _ (Nat.le_add_right _ _) _ _)
  · intro epoch scale hnew
    have hold : s.currentEpoch < epoch ∨ (epoch = s.currentEpoch ∧ s.currentScale < scale) := by
      rcases h.product with ⟨-, -, hsc, he⟩ | ⟨-, -, -, hsc, he⟩ | ⟨-, -, -, hsc, he⟩ <;> omega
    rw [h.sum, write_of_ne _ (by omega)]
    exact hs.fresh epoch scale hold

theorem DepositorStep.sumsWf {a : Address} {c d w : ℕ} (h : DepositorStep s s' a c d w) (hs : SumsWf s) :
    SumsWf s' := by
  obtain ⟨-, hscale, hepoch⟩ := h.product
  constructor
  · intro b hb
    rw [h.deposits] at hb
    rw [h.snapshots]
    by_cases hba : b = a
    · subst hba
      rw [Function.update_self] at hb ⊢
      simp [snapshotFor, hb]
    · rw [Function.update_of_ne hba] at hb ⊢
      rw [h.sum]
      exact hs.snapshot_le b hb
  · rw [h.sum, hscale, hepoch]
    exact hs.fresh

/-- the collateral each unit staked gains in an offset of `coll` -/
def gainPerUnitStaked (s : Pool) (coll : ℕ) : ℕ :=
  (coll * DECIMAL_PRECISION + s.lastWSTETHError_Offset) / s.totalSIMDeposits

/-- an offset adds to each gain at most the gain per unit times the share -/
theorem OffsetStep.gain_le {debt coll : ℕ} (h : OffsetStep s s' debt coll) (hs : Wf s) (a : Address) :
    exactGain s' a ≤ exactGain s a + gainPerUnitStaked s coll * share s a := by
  by_cases hd : s.deposits a = 0
  · rw [gain_zero hd, share_zero hd, gain_zero (by rw [h.deposits, hd])]
    simp
  have hshare : 0 ≤ (gainPerUnitStaked s coll : ℚ) * share s a := mul_nonneg (by positivity) (share_nonneg s a)
  have hsum : s'.epochToScaleToSum = write s.epochToScaleToSum s.currentEpoch s.currentScale
    (s.epochToScaleToSum s.currentEpoch s.currentScale + gainPerUnitStaked s coll * s.P) := h.sum
  by_cases hepoch : (s.depositSnapshots a).epoch = s.currentEpoch
  swap
  · have hsame : exactGain s' a = exactGain s a := by
      simp only [exactGain, h.snapshots, h.deposits, hsum]
      rw [write_of_ne _ fun e => hepoch e.1, write_of_ne _ fun e => hepoch e.1]
    rw [hsame]
    linarith
  have hscale := hs.scale_le a hd hepoch
  -- the sum written is the deposit's own (same scale), the next one, or one it does not read
  rcases (by omega : (s.depositSnapshots a).scale = s.currentScale ∨
      (s.depositSnapshots a).scale + 1 = s.currentScale ∨
      (s.depositSnapshots a).scale + 1 < s.currentScale) with hsc | hsc | hsc
  · refine le_of_eq ?_
    simp only [exactGain, share, h.snapshots, h.deposits, hsum, hepoch, if_true, hsc]
    rw [write_self, write_of_ne _ (by omega), Nat.sub_self, pow_zero]
    push_cast
    ring
  · refine le_of_eq ?_
    simp only [exactGain, share, h.snapshots, h.deposits, hsum, hepoch, if_true, hsc]
    rw [write_self, write_of_ne _ (by omega), show s.currentScale - (s.depositSnapshots a).scale = 1 by omega, pow_one]
    push_cast
    ring
  · have hsame : exactGain s' a = exactGain s a := by
      simp only [exactGain, h.snapshots, h.deposits, hsum]
      rw [write_of_ne _ (by omega), write_of_ne _ (by omega)]
    rw [hsame]
    linarith

/-- gains covered by the collateral, less the error carried to the next offset -/
structure GainsBacked (s : Pool) : Prop where
  deposits : Backed s
  sums : SumsWf s
  covered : ∑ a, exactGain s a + s.lastWSTETHError_Offset ≤ s.WSTETH * DECIMAL_PRECISION

theorem OffsetStep.gainsBacked {debt coll issued : ℕ} (h : OffsetStep s s' debt coll)
    (hfull : ChargesInFull s (.offset debt coll issued)) (hs : GainsBacked s) : GainsBacked s' := by
  refine ⟨h.backed hfull hs.deposits, h.sumsWf hs.sums, ?_⟩
  have hgain := Ledger.gains_accrue (h.gain_le hs.deposits.wf) (by positivity) hs.deposits.covered
  -- the error carried is what the floor division by the pool leaves over
  have herr : s'.lastWSTETHError_Offset + gainPerUnitStaked s coll * s.totalSIMDeposits =
      coll * DECIMAL_PRECISION + s.lastWSTETHError_Offset := by
    rw [h.gainError]
    exact Nat.sub_add_cancel (Nat.div_mul_le_self _ _)
  have herr' : (s'.lastWSTETHError_Offset : ℚ) + gainPerUnitStaked s coll * s.totalSIMDeposits =
      coll * DECIMAL_PRECISION + s.lastWSTETHError_Offset := by exact_mod_cast herr
  rw [h.coll]
  push_cast
  linarith [hs.covered]

theorem DepositorStep.gainsBacked {a : Address} {c d w : ℕ} (h : DepositorStep s s' a c d w) (hs : GainsBacked s) :
    GainsBacked s' := by
  refine ⟨h.backed hs.deposits, h.sumsWf hs.sums, ?_⟩
  have hothers : ∀ b, b ≠ a → exactGain s' b = exactGain s b := by
    intro b hb
    simp only [exactGain, h.snapshots, h.deposits, h.sum, Function.update_of_ne hb]
  have hcaller : exactGain s' a = 0 := by
    have hfresh := (h.sumsWf hs.sums).fresh s'.currentEpoch (s'.currentScale + 1) (.inr ⟨rfl, Nat.lt_succ_self _⟩)
    simp only [exactGain, h.snapshots, h.deposits, Function.update_self, snapshotFor]
    by_cases hd : d = 0
    · simp [hd]
    · simp [hd, hfresh]
  have hsum := Ledger.sum_replace hothers
  have hw := depositorGain_le hs.sums h.gain
  have hcoll : (s'.WSTETH : ℚ) + w = s.WSTETH := by exact_mod_cast h.coll
  rw [h.gainError]
  have hcov := hs.covered
  rw [← hcoll] at hcov
  linarith

theorem exec_gainsBacked {call : Call} (hs : GainsBacked s) (hfull : ChargesInFull s call)
    (h : exec s call = .ok s') : GainsBacked s' := by
  rcases exec_ok h with ⟨-, _, _, _, _, hstep⟩ | ⟨_, _, _, rfl, ⟨rfl, -⟩ | hstep⟩
  · exact hstep.gainsBacked hs
  · exact hs
  · exact hstep.gainsBacked hfull hs

/-! ## Whole runs -/

theorem init_gainsBacked : GainsBacked init :=
  ⟨init_backed, ⟨fun _ h => absurd rfl h, fun _ _ _ => rfl⟩, by simp [exactGain, init]⟩

/-- the gains shown add up to no more than the collateral of the pool -/
theorem GainsBacked.sum_le (h : GainsBacked s) : ∑ a, (getDepositorWSTETHGain s a).shown ≤ s.WSTETH := by
  have hshown : (∑ a, ((getDepositorWSTETHGain s a).shown : ℚ)) * DECIMAL_PRECISION ≤ s.WSTETH * DECIMAL_PRECISION := by
    rw [Finset.sum_mul]
    refine (Finset.sum_le_sum fun a _ => shownGain_le h.sums a).trans ?_
    linarith [h.covered, Nat.cast_nonneg (α := ℚ) s.lastWSTETHError_Offset]
  have hle := le_of_mul_le_mul_right hshown (by simp [DECIMAL_PRECISION])
  exact_mod_cast hle

theorem run_gainsBacked (calls : List Call) (hfull : AlongOk exec ChargesInFull init calls) :
    GainsBacked (run exec init calls) :=
  run_inv_ok exec (fun _ _ _ hs hf h => exec_gainsBacked hs hf h) init calls init_gainsBacked hfull

/-- **Gain solvency.** After every run whose successful offsets charge their debt in full, the collateral gains shown to
all depositors together are at most the pool's collateral, and paying out any of them does not underflow. -/
theorem gains_backed (calls : List Call) (hfull : AlongOk exec ChargesInFull init calls) :
    let s := run exec init calls
    ∑ a, (getDepositorWSTETHGain s a).shown ≤ s.WSTETH ∧
      ∀ a, Succeeds (sendWSTETHGainToDepositor s (getDepositorWSTETHGain s a).shown) := by
  intro s
  have hle : ∑ a, (getDepositorWSTETHGain s a).shown ≤ s.WSTETH := (run_gainsBacked calls hfull).sum_le
  refine ⟨hle, fun a => ?_⟩
  unfold sendWSTETHGainToDepositor
  split_ifs
  · exact succeeds_ok _
  · exact ⟨_, usub_bind.2 ⟨(Ledger.le_sum (fun a => (getDepositorWSTETHGain s a).shown) a).trans hle, rfl⟩⟩

theorem gains_backed_two_offsets :
    let s := run exec init fullyCharged
    AlongOk exec ChargesInFull init fullyCharged ∧
      ∑ a, (getDepositorWSTETHGain s a).shown ≤ s.WSTETH ∧
      ∀ a, Succeeds (sendWSTETHGainToDepositor s (getDepositorWSTETHGain s a).shown) :=
  ⟨by decide +kernel, gains_backed _ (by decide +kernel)⟩

/-- one more offset after the undercharged one -/
def overclaim : List Call := undercharge ++ [.offset (10 ^ 18) (10 ^ 18) 0]

/-- the one depositor left is shown 1002000001249499993 collateral, the pool has 1002000001000000000 -/
theorem gains_exceed_pool :
    ¬ ∑ a, (getDepositorWSTETHGain (run exec init overclaim) a).shown ≤ (run exec init overclaim).WSTETH := by
  intro h
  have hle := (Ledger.le_sum (fun a => (getDepositorWSTETHGain (run exec init overclaim) a).shown) 1).trans h
  have hshown : (getDepositorWSTETHGain (run exec init overclaim) 1).shown = 1002000001249499993 := by decide +kernel
  have hcoll : (run exec init overclaim).WSTETH = 1002000001000000000 := by decide +kernel
  rw [hcoll] at hle
  simp only [hshown] at hle
  omega

end SimContracts.StabilityPool
