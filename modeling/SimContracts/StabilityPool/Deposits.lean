/-
Deposits of the Stability Pool over whole runs: what depositors are shown against `totalSIMDeposits`.

A deposit's exact share is its initial value times the product since its snapshot, with no rounding; what the getter
shows is never more. An offset multiplies every share by at most 1 − loss, and the pool by 1 − debt/D, so the shares
stay covered as long as the loss charged is at least the debt absorbed. The loss is rounded up, but the rounding error
of the previous offset is subtracted from it; when that error is larger than what the next rounding adds, the pool is
charged less than the debt it loses and the deposits are worth more than the pool holds.

Results:
  deposits_backed        along offsets that charge their debt in full, the deposits shown never exceed the pool
  deposits_exceed_pool   two offsets around a large withdrawal: one depositor is shown more than the whole pool
-/
import SimContracts.StabilityPool.Steps

namespace SimContracts.StabilityPool

open Solidity

variable {s s' : Pool}

/-! ## Well-formed snapshots -/

/-- every deposit has a snapshot of a product, epoch and scale that the pool has passed -/
structure Wf (s : Pool) : Prop where
  product_pos : 0 < s.P
  snapshot_pos : ∀ a, s.deposits a ≠ 0 → 0 < (s.depositSnapshots a).P
  epoch_le : ∀ a, s.deposits a ≠ 0 → (s.depositSnapshots a).epoch ≤ s.currentEpoch
  scale_le : ∀ a, s.deposits a ≠ 0 → (s.depositSnapshots a).epoch = s.currentEpoch →
    (s.depositSnapshots a).scale ≤ s.currentScale

theorem init_wf : Wf init := ⟨by decide, fun _ h => absurd rfl h, fun _ h => absurd rfl h, fun _ h => absurd rfl h⟩

theorem DepositorStep.wf {a : Address} {c d w : ℕ} (h : DepositorStep s s' a c d w) (hs : Wf s) : Wf s' := by
  obtain ⟨hP, hscale, hepoch⟩ := h.product
  -- the caller's snapshot is the current one, all others are as before
  have hcase : ∀ b, s'.deposits b ≠ 0 →
      (s'.depositSnapshots b = snapshotFor s' d ∧ d ≠ 0) ∨
        (s'.depositSnapshots b = s.depositSnapshots b ∧ s.deposits b ≠ 0) := by
    intro b hb
    rw [h.deposits] at hb
    rw [h.snapshots]
    by_cases hba : b = a
    · subst hba
      exact .inl ⟨Function.update_self .., by simpa using hb⟩
    · rw [Function.update_of_ne hba] at hb ⊢
      exact .inr ⟨rfl, hb⟩
  refine ⟨hP ▸ hs.product_pos, fun b hb => ?_, fun b hb => ?_, fun b hb => ?_⟩
  all_goals
    rcases hcase b hb with ⟨hsnap, hd⟩ | ⟨hsnap, hb'⟩
    · simp [hsnap, snapshotFor, hd, hP, hs.product_pos]
    · first
        | simpa only [hsnap] using hs.snapshot_pos b hb'
        | simpa only [hsnap, hepoch] using hs.epoch_le b hb'
        | simpa only [hsnap, hepoch, hscale] using hs.scale_le b hb'

theorem OffsetStep.wf {debt coll : ℕ} (h : OffsetStep s s' debt coll) (hs : Wf s) : Wf s' := by
  refine ⟨h.product_pos, fun b hb => ?_, fun b hb => ?_, fun b hb => ?_⟩ <;> rw [h.deposits] at hb <;>
    rw [h.snapshots]
  · exact hs.snapshot_pos b hb
  · have hle := hs.epoch_le b hb
    rcases h.product with ⟨-, -, -, he⟩ | ⟨-, -, -, -, he⟩ | ⟨-, -, -, -, he⟩ <;> omega
  · intro hb'
    have hle := hs.epoch_le b hb
    have hsc := hs.scale_le b hb
    rcases h.product with ⟨-, -, hsc', he⟩ | ⟨-, -, -, hsc', he⟩ | ⟨-, -, -, hsc', he⟩ <;> omega

/-! ## The exact share of a deposit -/

/-- the deposit times the product since its snapshot, unrounded; nothing is left of a deposit from an earlier epoch -/
def share (s : Pool) (a : Address) : ℚ :=
  if (s.depositSnapshots a).epoch = s.currentEpoch then
    s.deposits a * s.P / (s.depositSnapshots a).P / SCALE_FACTOR ^ (s.currentScale - (s.depositSnapshots a).scale)
  else 0

theorem share_nonneg (s : Pool) (a : Address) : 0 ≤ share s a := by
  unfold share
  split_ifs
  · positivity
  · exact le_rfl

theorem share_zero {a : Address} (h : s.deposits a = 0) : share s a = 0 := by
  simp [share, h]

theorem compoundedByScale_le {d Pa diff v : ℕ} (h : compoundedByScale s d Pa diff = .ok v) :
    (v : ℚ) ≤ d * s.P / Pa / SCALE_FACTOR ^ diff := by
  unfold compoundedByScale at h
  split_ifs at h with h0 h1
  · simp only [umul_bind, udiv_ok] at h
    obtain ⟨-, -, rfl⟩ := h
    have hfloor : ((d * s.P / Pa : ℕ) : ℚ) ≤ ((d * s.P : ℕ) : ℚ) / Pa := Nat.cast_div_le
    simpa [h0] using hfloor
  · simp only [umul_bind, udiv_bind, udiv_ok] at h
    obtain ⟨-, -, -, rfl⟩ := h
    have hfloor : ((d * s.P / Pa : ℕ) : ℚ) ≤ ((d * s.P : ℕ) : ℚ) / Pa := Nat.cast_div_le
    calc ((d * s.P / Pa / SCALE_FACTOR : ℕ) : ℚ) ≤ ((d * s.P / Pa : ℕ) : ℚ) / SCALE_FACTOR := Nat.cast_div_le
      _ ≤ ((d * s.P : ℕ) : ℚ) / Pa / SCALE_FACTOR := by gcongr
      _ = d * s.P / Pa / SCALE_FACTOR ^ diff := by rw [h1, pow_one, Nat.cast_mul]
  · cases h
    positivity

/-- what the getter shows of a deposit is at most its share -/
theorem compounded_le_share (hs : Wf s) {a : Address} {c : ℕ} (h : getCompoundedSIMDeposit s a = .ok c) :
    (c : ℚ) ≤ share s a := by
  unfold getCompoundedSIMDeposit at h
  split_ifs at h with hd
  · cases h
    exact_mod_cast share_nonneg s a
  · unfold getCompoundedStakeFromSnapshots at h
    split_ifs at h with hepoch
    · cases h
      exact_mod_cast share_nonneg s a
    · simp only [usub_bind] at h
      obtain ⟨-, h⟩ := h
      obtain ⟨v, hv, h⟩ := bind_ok.1 h
      have heq : (s.depositSnapshots a).epoch = s.currentEpoch := le_antisymm (hs.epoch_le a hd) (not_lt.1 hepoch)
      have hcv : c ≤ v := by
        rw [pure_ok] at h
        split_ifs at h <;> omega
      calc (c : ℚ) ≤ v := by exact_mod_cast hcv
        _ ≤ share s a := by
          rw [share, if_pos heq]
          exact compoundedByScale_le hv

theorem shown_le_share (hs : Wf s) (a : Address) : ((getCompoundedSIMDeposit s a).shown : ℚ) ≤ share s a := by
  cases h : getCompoundedSIMDeposit s a with
  | ok c => exact compounded_le_share hs h
  | error e => exact_mod_cast share_nonneg s a

/-! ## One step -/

/-- a product that shrinks by `x` and is written `k` scales further down shrinks a share by `x` -/
theorem scaled_share_le {d P P' Pa x : ℚ} {k diff : ℕ} (hd : 0 ≤ d) (hPa : 0 ≤ Pa)
    (hP : P' ≤ P * x * SCALE_FACTOR ^ k) :
    d * P' / Pa / SCALE_FACTOR ^ (diff + k) ≤ d * P / Pa / SCALE_FACTOR ^ diff * x := by
  have hpos : (0 : ℚ) < SCALE_FACTOR ^ k := by simp [SCALE_FACTOR]
  calc d * P' / Pa / SCALE_FACTOR ^ (diff + k) ≤ d * (P * x * SCALE_FACTOR ^ k) / Pa / SCALE_FACTOR ^ (diff + k) := by
        gcongr
    _ = d * P / Pa / SCALE_FACTOR ^ diff * x := by
        rw [pow_add]
        field_simp

/-- an offset takes at least the loss from every share -/
theorem OffsetStep.share_le {debt coll : ℕ} (h : OffsetStep s s' debt coll) (hs : Wf s) (a : Address) :
    share s' a ≤ share s a * ((DECIMAL_PRECISION - simLoss s debt : ℕ) / DECIMAL_PRECISION) := by
  generalize hf : DECIMAL_PRECISION - simLoss s debt = f
  have hstep := h.product
  rw [hf] at hstep
  have hnonneg : 0 ≤ share s a * ((f : ℚ) / DECIMAL_PRECISION) := mul_nonneg (share_nonneg s a) (by positivity)
  by_cases hd : s.deposits a = 0
  · rwa [share_zero (by rw [h.deposits, hd])]
  by_cases hepoch : (s.depositSnapshots a).epoch = s'.currentEpoch
  swap
  · rwa [share, if_neg (by rwa [h.snapshots])]
  have hle := hs.epoch_le a hd
  have hscale := hs.scale_le a hd
  rw [share, if_pos (by rwa [h.snapshots]), h.snapshots, h.deposits]
  cases hstep with
  | epoch _ _ _ he => omega
  | scale _ _ hP hsc he =>
    rw [share, if_pos (hepoch.trans he), hsc, Nat.sub_add_comm (hscale (hepoch.trans he))]
    refine scaled_share_le (by positivity) (by positivity) ?_
    have hfloor : ((s.P * f * SCALE_FACTOR / DECIMAL_PRECISION : ℕ) : ℚ) ≤
      ((s.P * f * SCALE_FACTOR : ℕ) : ℚ) / DECIMAL_PRECISION := Nat.cast_div_le
    rw [hP]
    refine hfloor.trans (le_of_eq ?_)
    push_cast
    ring
  | same _ _ hP hsc he =>
    rw [share, if_pos (hepoch.trans he), hsc]
    refine scaled_share_le (k := 0) (by positivity) (by positivity) ?_
    have hfloor : ((s.P * f / DECIMAL_PRECISION : ℕ) : ℚ) ≤ ((s.P * f : ℕ) : ℚ) / DECIMAL_PRECISION :=
      Nat.cast_div_le
    rw [hP]
    refine hfloor.trans (le_of_eq ?_)
    push_cast
    ring

/-- the call is not an offset, offsets nothing or everything, or the error carried from the last offset is within what
rounding up the loss adds -/
def ChargesInFull (s : Pool) : Call → Prop
  | .offset debt _ _ => debt = 0 ∨ s.totalSIMDeposits ≤ debt ∨
      s.lastSIMLossError_Offset ≤ debt * DECIMAL_PRECISION % s.totalSIMDeposits ∨
      (debt * DECIMAL_PRECISION % s.totalSIMDeposits = 0 ∧ s.lastSIMLossError_Offset ≤ s.totalSIMDeposits)
  | _ => True

instance (s : Pool) : ∀ call, Decidable (ChargesInFull s call)
  | .offset _ _ _ => inferInstanceAs (Decidable (_ ∨ _ ∨ _ ∨ (_ ∧ _)))
  | .provideToSP _ _ _ | .withdrawFromSP _ _ _ _ | .withdrawWSTETHGainToTrove _ _ _ => isTrue trivial

/-- subtracting `e` before rounding up to a multiple of `D` keeps the result at `n` iff the rounding makes up for it -/
theorem le_roundup_iff {n e D : ℕ} (hD : 0 < D) (he : e ≤ n) :
    n ≤ ((n - e) / D + 1) * D ↔ e ≤ n % D ∨ (n % D = 0 ∧ e ≤ D) := by
  obtain ⟨m, rfl⟩ := Nat.exists_eq_add_of_le he
  have hn : (e + m) / D * D + (e + m) % D = e + m := Nat.div_add_mod' _ _
  have hr : (e + m) % D < D := Nat.mod_lt _ hD
  have hk : m / D * D ≤ m := Nat.div_mul_le_self _ _
  rw [Nat.add_sub_cancel_left]
  generalize (e + m) / D = q at *
  generalize (e + m) % D = r at *
  constructor
  · intro h
    rcases Nat.eq_zero_or_pos r with h0 | hpos
    · have hq : q ≤ m / D + 1 := Nat.le_of_mul_le_mul_right (by omega : q * D ≤ (m / D + 1) * D) hD
      have hqD : q * D ≤ (m / D + 1) * D := Nat.mul_le_mul_right D hq
      rw [Nat.add_mul] at hqD
      omega
    · have hq : q < m / D + 1 := Nat.lt_of_mul_lt_mul_right (a := D) (by omega)
      have hqD : q * D ≤ m / D * D := Nat.mul_le_mul_right D (Nat.le_of_lt_succ hq)
      omega
  · rintro (h | ⟨h0, h⟩)
    · have hq : q ≤ m / D := (Nat.le_div_iff_mul_le hD).2 (by omega)
      have hqD : q * D ≤ m / D * D := Nat.mul_le_mul_right D hq
      rw [Nat.add_mul]
      omega
    · have hq : q - 1 ≤ m / D := (Nat.le_div_iff_mul_le hD).2 (by rw [Nat.sub_mul]; omega)
      have hqD : (q - 1) * D ≤ m / D * D := Nat.mul_le_mul_right D hq
      rw [Nat.sub_mul] at hqD
      rw [Nat.add_mul]
      omega

/-- that is exactly when the loss charged over the pool is at least the debt -/
theorem chargesInFull_iff {debt coll issued : ℕ} (h : OffsetStep s s' debt coll) :
    ChargesInFull s (.offset debt coll issued) ↔
      debt * DECIMAL_PRECISION ≤ simLoss s debt * s.totalSIMDeposits := by
  unfold ChargesInFull simLoss
  by_cases hall : debt = s.totalSIMDeposits
  · rw [if_pos hall]
    exact iff_of_true (.inr (.inl hall.ge)) (by rw [hall, Nat.mul_comm])
  · rw [if_neg hall]
    have hcarry := h.carry_le hall
    have hpos := h.debt_pos
    have hle := h.debt_le
    rw [le_roundup_iff (by omega) hcarry]
    omega

/-- shares covered by the pool, with the snapshots they are read from well-formed -/
structure Backed (s : Pool) : Prop where
  wf : Wf s
  covered : ∑ a, share s a ≤ s.totalSIMDeposits

theorem OffsetStep.backed {debt coll issued : ℕ} (h : OffsetStep s s' debt coll)
    (hfull : ChargesInFull s (.offset debt coll issued)) (hs : Backed s) : Backed s' := by
  refine ⟨h.wf hs.wf, Ledger.shares_lose (h.share_le hs.wf) (by positivity) hs.covered ?_⟩
  have hcharge := (chargesInFull_iff h).1 hfull
  have hloss := h.loss_le
  rw [h.total, Nat.cast_sub h.debt_le, Nat.cast_sub hloss]
  have hcharge' : (debt : ℚ) * DECIMAL_PRECISION ≤ simLoss s debt * s.totalSIMDeposits := by exact_mod_cast hcharge
  have hpos : (0 : ℚ) < DECIMAL_PRECISION := by simp [DECIMAL_PRECISION]
  rw [← mul_div_assoc, div_le_iff₀ hpos]
  linarith

/-- a depositor call settles the caller's share and leaves the others as they are -/
theorem DepositorStep.backed {a : Address} {c d w : ℕ} (h : DepositorStep s s' a c d w) (hs : Backed s) :
    Backed s' := by
  obtain ⟨hP, hscale, hepoch⟩ := h.product
  have hothers : ∀ b, b ≠ a → share s' b = share s b := by
    intro b hb
    rw [share, share, h.snapshots, h.deposits, Function.update_of_ne hb, Function.update_of_ne hb, hP, hscale, hepoch]
  have hcaller : share s' a = d := by
    have hpos : (s'.P : ℚ) ≠ 0 := by exact_mod_cast (hP ▸ hs.wf.product_pos).ne'
    rw [share, h.snapshots, h.deposits, Function.update_self, Function.update_self, snapshotFor]
    by_cases hd : d = 0
    · simp [hd]
    · simp [hd, hpos]
  have hsum := Ledger.sum_replace hothers
  have hc : (c : ℚ) ≤ share s a := compounded_le_share hs.wf h.compounded
  have htotal : (s'.totalSIMDeposits : ℚ) + c = s.totalSIMDeposits + d := by exact_mod_cast h.total
  refine ⟨h.wf hs.wf, ?_⟩
  linarith [hs.covered]

theorem exec_backed {call : Call} (hs : Backed s) (hfull : ChargesInFull s call) (h : exec s call = .ok s') :
    Backed s' := by
  rcases exec_ok h with ⟨-, _, _, _, _, hstep⟩ | ⟨_, _, _, rfl, ⟨rfl, -⟩ | hstep⟩
  · exact hstep.backed hs
  · exact hs
  · exact hstep.backed hfull hs

/-! ## Whole runs -/

theorem init_backed : Backed init := ⟨init_wf, by simp [share, init]⟩

/-- the deposits shown add up to no more than the pool -/
theorem Backed.sum_le (h : Backed s) : ∑ a, (getCompoundedSIMDeposit s a).shown ≤ s.totalSIMDeposits := by
  have hsum : ∑ a, ((getCompoundedSIMDeposit s a).shown : ℚ) ≤ s.totalSIMDeposits :=
    (Finset.sum_le_sum fun a _ => shown_le_share h.wf a).trans h.covered
  exact_mod_cast hsum

theorem run_backed (calls : List Call) (hfull : AlongOk exec ChargesInFull init calls) : Backed (run exec init calls) :=
  run_inv_ok exec (fun _ _ _ hs hf h => exec_backed hs hf h) init calls init_backed hfull

/-- **Deposit solvency.** After every run whose successful offsets charge their debt in full, the deposits shown to all
depositors together are at most the pool; and the subtraction from the pool in a withdrawal, which takes place after an
issuance, goes through for every depositor and amount. -/
theorem deposits_backed (calls : List Call) (hfull : AlongOk exec ChargesInFull init calls) :
    let s := run exec init calls
    ∑ a, (getCompoundedSIMDeposit s a).shown ≤ s.totalSIMDeposits ∧
      ∀ a amount issued s₁ compoundedSIMDeposit, triggerSHADYIssuance s issued = .ok s₁ →
        getCompoundedSIMDeposit s₁ a = .ok compoundedSIMDeposit →
          Succeeds (sendSIMToDepositor s₁ (min amount compoundedSIMDeposit)) := by
  intro s
  have hle : ∑ a, (getCompoundedSIMDeposit s a).shown ≤ s.totalSIMDeposits := (run_backed calls hfull).sum_le
  refine ⟨hle, fun a amount issued s₁ d hissued hd => ?_⟩
  obtain ⟨e, G, rfl⟩ := triggerSHADYIssuance_ok hissued
  have hshown : d ≤ s.totalSIMDeposits := by
    have hone := (Ledger.le_sum (fun a => (getCompoundedSIMDeposit s a).shown) a).trans hle
    rwa [show getCompoundedSIMDeposit s a = .ok d from hd] at hone
  unfold sendSIMToDepositor
  split_ifs
  · exact succeeds_ok _
  · exact ⟨_, usub_bind.2 ⟨(min_le_right _ _).trans hshown, rfl⟩⟩

/-- 3e18 offset in two steps of 1e18: the carry of the first is within the rounding of the second -/
def fullyCharged : List Call :=
  [.provideToSP 1 (3 * 10 ^ 18) 0, .offset (10 ^ 18) (10 ^ 15) 0, .offset (10 ^ 18) (10 ^ 15) 0]

theorem deposits_backed_two_offsets :
    let s := run exec init fullyCharged
    AlongOk exec ChargesInFull init fullyCharged ∧
      ∑ a, (getCompoundedSIMDeposit s a).shown ≤ s.totalSIMDeposits ∧
      ∀ a amount issued s₁ compoundedSIMDeposit, triggerSHADYIssuance s issued = .ok s₁ →
        getCompoundedSIMDeposit s₁ a = .ok compoundedSIMDeposit →
          Succeeds (sendSIMToDepositor s₁ (min amount compoundedSIMDeposit)) :=
  ⟨by decide +kernel, deposits_backed _ (by decide +kernel)⟩

/-- an offset of 1e18 of a pool of about 1e27, the withdrawal of all but 3e18 of it, an offset of 2e18 -/
def undercharge : List Call :=
  [.provideToSP 1 (4 * 10 ^ 18) 0, .provideToSP 2 (10 ^ 27) 0, .offset (10 ^ 18) (10 ^ 15) 0,
   .withdrawFromSP 2 (10 ^ 27) 0 (2 * 10 ^ 18), .offset (2 * 10 ^ 18) (2 * 10 ^ 15) 0]

/-- the one depositor left is shown 1999999997499999988, the pool holds 1999999997000000000 -/
theorem deposits_exceed_pool :
    ¬ ∑ a, (getCompoundedSIMDeposit (run exec init undercharge) a).shown ≤
      (run exec init undercharge).totalSIMDeposits := by
  intro h
  have hle := (Ledger.le_sum (fun a => (getCompoundedSIMDeposit (run exec init undercharge) a).shown) 1).trans h
  have hshown : (getCompoundedSIMDeposit (run exec init undercharge) 1).shown = 1999999997499999988 := by decide +kernel
  have htotal : (run exec init undercharge).totalSIMDeposits = 1999999997000000000 := by decide +kernel
  rw [htotal] at hle
  simp only [hshown] at hle
  omega

end SimContracts.StabilityPool
