/-
Whom a liquidation may close. The loops look at the ICR of a trove when they come to it; nothing that a trove's ICR depends on
changes before the payments at the end, so it is the ICR at the start. A recovery step is only made while the running TCR is
below CCR. So a trove is closed for one of two reasons (`Reason`): its ICR is below MCR, or the system is in recovery mode, its
ICR is below CCR and the Stability Pool can pay all of its debt; then it pays 110% of the debt and the rest is its owner's.

Results:
  liquidation_eligible   a liquidation leaves a trove alone or closes it for a reason
  trove_left_alone       others cannot change a trove but by a redemption, or a liquidation that it is badly collateralised for
-/
import SimContracts.Protocol.Batches
import SimContracts.Protocol.Redeeming

namespace SimContracts.Protocol

open Solidity TroveManager BorrowerOperations

variable {c : Config} {env : Env} {s s' s₁ : System} {a b sender user : Address} {price n amount surplus : ℕ} {mode : Bool}
  {v v' : LiquidationSequence} {single : LiquidationValues}

/-- why a liquidation that starts in `s` closes trove `b`, and the surplus that is credited for it -/
inductive Reason (s : System) (price : ℕ) (b : Address) : ℕ → Prop
  | low (ICR : ℕ) (hICR : getCurrentICR s b price = .ok ICR) (hlow : ICR < MCR) : Reason s price b 0
  | capped (ICR : ℕ) (t : EntireTrove) (hmode : checkRecoveryMode s price = .ok true)
      (hICR : getCurrentICR s b price = .ok ICR) (hlow : ICR < CCR) (ht : getEntireDebtAndColl s b = .ok t)
      (hpool : t.debt ≤ s.stabilityPool.totalSIMDeposits) : Reason s price b (t.coll - t.debt * MCR / price)

/-! ## One trove -/

/-- a trove that is closed in recovery mode -/
theorem liquidateRecoveryMode_reason {ICR TCR SIMInStabPool : ℕ}
    (h : liquidateRecoveryMode c s b ICR SIMInStabPool TCR price = .ok (s', single)) :
    s' = s ∧ single = .zero ∨ Liquidated c s s' b single SIMInStabPool ∧ (ICR < MCR ∧ single.collSurplus = 0 ∨
      ICR < TCR ∧ ∃ t, getEntireDebtAndColl s b = .ok t ∧ t.debt ≤ SIMInStabPool ∧
        single.collSurplus = t.coll - t.debt * MCR / price) := by
  rcases liquidateRecoveryMode_ok h with hsame | ⟨-, hl⟩
  · exact .inl hsame
  unfold liquidateRecoveryMode at h
  by_cases hlast : s.troveManager.TroveOwners.length ≤ 1
  · rw [if_pos hlast] at h
    cases h
    exact .inl ⟨rfl, rfl⟩
  rw [if_neg hlast] at h
  obtain ⟨t, ht, h⟩ := bind_ok.1 h
  simp only [usub_bind] at h
  obtain ⟨-, h⟩ := h
  by_cases h1 : ICR ≤ _100pct
  · rw [if_pos h1] at h
    obtain ⟨s₂, -, h⟩ := bind_ok.1 h
    obtain ⟨s₃, -, h⟩ := bind_ok.1 h
    cases h
    exact .inr ⟨hl, .inl ⟨lt_of_le_of_lt h1 (by decide), rfl⟩⟩
  rw [if_neg h1] at h
  by_cases h2 : ICR < MCR
  · rw [if_pos h2] at h
    obtain ⟨s₂, -, h⟩ := bind_ok.1 h
    obtain ⟨o, -, h⟩ := bind_ok.1 h
    obtain ⟨s₃, -, h⟩ := bind_ok.1 h
    cases h
    exact .inr ⟨hl, .inl ⟨h2, rfl⟩⟩
  rw [if_neg h2] at h
  split_ifs at h with h3
  · obtain ⟨s₁, -, h⟩ := bind_ok.1 h
    obtain ⟨_, -, h⟩ := bind_ok.1 h
    obtain ⟨s₂, -, h⟩ := bind_ok.1 h
    obtain ⟨w, hw, h⟩ := bind_ok.1 h
    obtain ⟨s₃, -, h⟩ := bind_ok.1 h
    obtain ⟨s₄, -, h⟩ := bind_ok.1 h
    simp only [pure_ok, Prod.mk.injEq] at h
    obtain ⟨-, rfl⟩ := h
    simp only [getCappedOffsetVals, umul_bind, udiv_bind, usub_bind, pure_ok] at hw
    obtain ⟨-, -, -, -, rfl⟩ := hw
    exact .inr ⟨hl, .inr ⟨h3.1, t, ht, h3.2, rfl⟩⟩
  · cases h
    exact .inl ⟨rfl, rfl⟩

/-- a trove that is closed in normal mode leaves no surplus -/
theorem liquidateNormalMode_surplus {SIMInStabPool : ℕ}
    (h : liquidateNormalMode c s b SIMInStabPool = .ok (s', single)) : single.collSurplus = 0 := by
  obtain ⟨t, -, h⟩ := bind_ok.1 h
  obtain ⟨s₂, -, h⟩ := bind_ok.1 h
  simp only [usub_bind] at h
  obtain ⟨-, h⟩ := h
  obtain ⟨o, -, h⟩ := bind_ok.1 h
  obtain ⟨s₃, -, h⟩ := bind_ok.1 h
  cases h
  rfl

/-- what a closed trove leaves to its owner -/
theorem TroveManager.Liquidated.credited {SIMInStabPool : ℕ} (h : Liquidated c s s' b single SIMInStabPool) :
    s'.collSurplusPool.balances =
        Function.update s.collSurplusPool.balances b (s.collSurplusPool.balances b + single.collSurplus) ∧
      (trove s' b).status = .closedByLiquidation := by
  obtain ⟨t, s₁, s₂, s₃, -, -, -, hmoved, hstake, hshut, hsurplus⟩ := h.steps
  have hclosed := shut_closed hstake hshut
  have hframe := accountCollSurplus_frame hsurplus
  have hsurplus₃ : s₃.collSurplusPool = s.collSurplusPool := by
    rw [hclosed.rest]
    obtain ⟨u, -, rfl⟩ := hmoved.state
    rfl
  refine ⟨?_, ?_⟩
  · unfold accountCollSurplus at hsurplus
    split_ifs at hsurplus with hpos
    · rw [CollSurplusPool.accountSurplus_ok hsurplus, hsurplus₃]
    · cases hsurplus
      rw [hsurplus₃, show single.collSurplus = 0 by omega, Nat.add_zero, Function.update_eq_self]
  · obtain ⟨i, hi⟩ := hclosed.troves.1
    rw [(TroveManager.SamePosition.of_frame (a := b) hframe).fields.2.2.2, hi]

/-! ## The loops -/

/-- a sequence that started in `s`: the troves left are as they were, the others were closed for a reason -/
structure Picked (s : System) (price : ℕ) (v : LiquidationSequence) : Prop where
  registry : Registry v.s
  left_ : ∀ b, (trove v.s b).status = .active →
    SamePosition s v.s b ∧ v.s.collSurplusPool.balances b = s.collSurplusPool.balances b
  closed : ∀ b, (trove s b).status = .active → (trove v.s b).status ≠ .active →
    (trove v.s b).status = .closedByLiquidation ∧ ∃ surplus, Reason s price b surplus ∧
      v.s.collSurplusPool.balances b = s.collSurplusPool.balances b + surplus
  remaining : v.remainingSIMInStabPool ≤ s.stabilityPool.totalSIMDeposits

/-- the running totals are those of a system in recovery mode, until the loop goes back to normal mode -/
def RunsInRecovery (price : ℕ) (v : LiquidationSequence) : Prop :=
  v.backToNormalMode = false → ∀ TCR, computeCR v.entireSystemColl v.entireSystemDebt price = .ok TCR → TCR < CCR

theorem Picked.start (h : Registry s) (debt coll : ℕ) : Picked s price (startSequence s debt coll) :=
  ⟨h, fun b _ => ⟨.refl s b, rfl⟩, fun _ hb hb' => absurd hb hb', le_rfl⟩

/-- one more trove is closed -/
theorem Picked.close {SIMInStabPool : ℕ} (h : Picked s price v) (hl : Liquidated c v.s v'.s user single SIMInStabPool)
    (hreason : SamePosition s v.s user → Reason s price user single.collSurplus)
    (hremaining : v'.remainingSIMInStabPool ≤ v.remainingSIMInStabPool) : Picked s price v' := by
  obtain ⟨hreg, hactive, hstatus, hothers⟩ := hl.closes h.registry
  obtain ⟨hcredited, hclosed⟩ := hl.credited
  have hother : ∀ b, b ≠ user → v'.s.collSurplusPool.balances b = v.s.collSurplusPool.balances b := by
    intro b hb
    rw [hcredited, Function.update_of_ne hb]
  refine ⟨hreg, fun b hb => ?_, fun b hb hb' => ?_, hremaining.trans h.remaining⟩
  · obtain ⟨hb, hne⟩ := (hstatus b).1 hb
    obtain ⟨hsame, hsurplus⟩ := h.left_ b hb
    exact ⟨hsame.trans (hothers b hne), (hother b hne).trans hsurplus⟩
  · by_cases hne : b = user
    · subst hne
      obtain ⟨hsame, hsurplus⟩ := h.left_ b hactive
      refine ⟨hclosed, _, hreason hsame, ?_⟩
      rw [hcredited, Function.update_self, hsurplus]
    · have hgone : (trove v.s b).status ≠ .active := fun hv => hb' ((hstatus b).2 ⟨hv, hne⟩)
      obtain ⟨hstatus', surplus, hwhy, hsurplus⟩ := h.closed b hb hgone
      exact ⟨(hothers b hne).fields.2.2.2.trans hstatus', surplus, hwhy, (hother b hne).trans hsurplus⟩

theorem normalStep_back (h : normalStep c user v = .ok v') : v'.backToNormalMode = v.backToNormalMode := by
  obtain ⟨⟨s₁, single⟩, -, h⟩ := bind_ok.1 h
  simp only [usub_bind] at h
  obtain ⟨-, h⟩ := h
  obtain ⟨totals, -, h⟩ := bind_ok.1 h
  cases h
  rfl

theorem Picked.normal {ICR : ℕ} (h : Picked s price v) (hstep : normalStep c user v = .ok v')
    (hICR : getCurrentICR v.s user price = .ok ICR) (hlow : ICR < MCR) : Picked s price v' := by
  obtain ⟨⟨s₁, single⟩, h1, hstep⟩ := bind_ok.1 hstep
  simp only [usub_bind] at hstep
  obtain ⟨-, hstep⟩ := hstep
  obtain ⟨totals, -, hstep⟩ := bind_ok.1 hstep
  cases hstep
  refine h.close (liquidateNormalMode_ok h1) (fun hsame => ?_) (Nat.sub_le _ _)
  rw [liquidateNormalMode_surplus h1]
  exact .low ICR (hsame.getCurrentICR price ▸ hICR) hlow

/-- a recovery step closes no trove at or above the running TCR, and tests the mode again -/
theorem Picked.recovery {ICR : ℕ} (h : Picked s price v) (hmode : checkRecoveryMode s price = .ok true)
    (hruns : RunsInRecovery price v) (hback : v.backToNormalMode = false) (hstep : recoveryStep c price user ICR v = .ok v')
    (hICR : getCurrentICR v.s user price = .ok ICR) : Picked s price v' ∧ RunsInRecovery price v' := by
  obtain ⟨TCR, hTCR, hstep⟩ := bind_ok.1 hstep
  obtain ⟨⟨s₁, single⟩, h1, hstep⟩ := bind_ok.1 hstep
  simp only [usub_bind] at hstep
  obtain ⟨-, -, -, -, -, hstep⟩ := hstep
  obtain ⟨totals, -, hstep⟩ := bind_ok.1 hstep
  obtain ⟨inRecovery, hin, hstep⟩ := bind_ok.1 hstep
  cases hstep
  have hlow := hruns hback TCR hTCR
  refine ⟨?_, fun hnot TCR' hTCR' => ?_⟩
  · rcases liquidateRecoveryMode_reason h1 with ⟨rfl, rfl⟩ | ⟨hl, hwhy⟩
    · exact ⟨h.registry, h.left_, h.closed, (Nat.sub_le _ _).trans h.remaining⟩
    · refine h.close hl (fun hsame => ?_) (Nat.sub_le _ _)
      rw [hsame.getCurrentICR] at hICR
      rcases hwhy with ⟨hMCR, hzero⟩ | ⟨hTCR', t, ht, hle, hsurplus⟩
      · rw [hzero]
        exact .low ICR hICR hMCR
      · rw [hsurplus]
        exact .capped ICR t hmode hICR (hTCR'.trans hlow) (hsame.getEntireDebtAndColl ▸ ht) (hle.trans h.remaining)
  · simp only [checkPotentialRecoveryMode, hTCR', ok_bind, pure_ok] at hin
    subst hin
    simpa using hnot

theorem liquidateTrovesRecoveryLoop_picked {firstUser : Address} (h : Picked s price v)
    (hmode : checkRecoveryMode s price = .ok true) (hruns : RunsInRecovery price v)
    (hloop : liquidateTrovesRecoveryLoop c price firstUser n user v = .ok v') : Picked s price v' := by
  induction n generalizing user v with
  | zero =>
    cases hloop
    exact h
  | succ n ih =>
    unfold liquidateTrovesRecoveryLoop at hloop
    by_cases hfirst : user = firstUser
    · rw [if_pos hfirst] at hloop
      cases hloop
      exact h
    rw [if_neg hfirst] at hloop
    obtain ⟨ICR, hICR, hloop⟩ := bind_ok.1 hloop
    split_ifs at hloop with hback hskip hlow
    · cases hloop
      exact h
    · obtain ⟨v₁, hv, hloop⟩ := bind_ok.1 hloop
      obtain ⟨h₁, hruns₁⟩ := h.recovery hmode hruns hback hv hICR
      exact ih h₁ hruns₁ hloop
    · obtain ⟨v₁, hv, hloop⟩ := bind_ok.1 hloop
      refine ih (h.normal hv hICR hlow) (fun hnot => absurd hnot ?_) hloop
      rw [normalStep_back hv]
      exact hback
    · cases hloop
      exact h

theorem liquidateTrovesNormalLoop_picked (h : Picked s price v) (hloop : liquidateTrovesNormalLoop c price n v = .ok v') :
    Picked s price v' := by
  induction n generalizing v with
  | zero =>
    cases hloop
    exact h
  | succ n ih =>
    obtain ⟨ICR, hICR, hloop⟩ := bind_ok.1 hloop
    split_ifs at hloop with hlow
    · obtain ⟨v₁, hv, hloop⟩ := bind_ok.1 hloop
      exact ih (h.normal hv hICR hlow) hloop
    · cases hloop
      exact h

theorem batchRecoveryLoop_picked {users : List Address} (h : Picked s price v) (hmode : checkRecoveryMode s price = .ok true)
    (hruns : RunsInRecovery price v) (hloop : batchRecoveryLoop c price users v = .ok v') : Picked s price v' := by
  induction users generalizing v with
  | nil =>
    cases hloop
    exact h
  | cons user users ih =>
    unfold batchRecoveryLoop at hloop
    by_cases hactive : (trove v.s user).status ≠ .active
    · rw [if_pos hactive] at hloop
      exact ih h hruns hloop
    rw [if_neg hactive] at hloop
    obtain ⟨ICR, hICR, hloop⟩ := bind_ok.1 hloop
    split_ifs at hloop with hback hskip hlow
    · exact ih h hruns hloop
    · obtain ⟨v₁, hv, hloop⟩ := bind_ok.1 hloop
      obtain ⟨h₁, hruns₁⟩ := h.recovery hmode hruns hback hv hICR
      exact ih h₁ hruns₁ hloop
    · obtain ⟨v₁, hv, hloop⟩ := bind_ok.1 hloop
      refine ih (h.normal hv hICR hlow) (fun hnot => absurd hnot ?_) hloop
      rw [normalStep_back hv]
      exact hback
    · exact ih h hruns hloop

theorem batchNormalLoop_picked {users : List Address} (h : Picked s price v)
    (hloop : batchNormalLoop c price users v = .ok v') : Picked s price v' := by
  induction users generalizing v with
  | nil =>
    cases hloop
    exact h
  | cons user users ih =>
    obtain ⟨ICR, hICR, hloop⟩ := bind_ok.1 hloop
    split_ifs at hloop with hlow
    · obtain ⟨v₁, hv, hloop⟩ := bind_ok.1 hloop
      exact ih (h.normal hv hICR hlow) hloop
    · exact ih h hloop

/-- where a loop in recovery mode starts -/
theorem runsInRecovery_start {debt coll : ℕ} (hmode : checkRecoveryMode s price = .ok true)
    (hdebt : getEntireSystemDebt s = .ok debt) (hcoll : getEntireSystemColl s = .ok coll) :
    RunsInRecovery price (startSequence s debt coll) := by
  intro _ TCR hTCR
  simp only [checkRecoveryMode, getTCR, hdebt, hcoll, ok_bind] at hmode
  have hTCR : computeCR coll debt price = .ok TCR := hTCR
  simpa [hTCR] using hmode

/-- all four loops -/
theorem Totals.picked (h : Totals c price s mode v) (hreg : Registry s) (hmode : checkRecoveryMode s price = .ok mode) :
    Picked s price v := by
  rcases h with ⟨n, h⟩ | ⟨troveArray, h⟩
  · unfold liquidateTrovesTotals at h
    split_ifs at h with hrecovery
    · subst hrecovery
      obtain ⟨debt, hdebt, h⟩ := bind_ok.1 h
      obtain ⟨coll, hcoll, h⟩ := bind_ok.1 h
      exact liquidateTrovesRecoveryLoop_picked (.start hreg debt coll) hmode (runsInRecovery_start hmode hdebt hcoll) h
    · exact liquidateTrovesNormalLoop_picked (.start hreg 0 0) h
  · unfold batchTotals at h
    split_ifs at h with hrecovery
    · subst hrecovery
      obtain ⟨debt, hdebt, h⟩ := bind_ok.1 h
      obtain ⟨coll, hcoll, h⟩ := bind_ok.1 h
      exact batchRecoveryLoop_picked (.start hreg debt coll) hmode (runsInRecovery_start hmode hdebt hcoll) h
    · exact batchNormalLoop_picked (.start hreg 0 0) h

/-! ## The transaction -/

/-- the record of a trove and its snapshot are as they were; its pending rewards may have grown -/
structure Untouched (s s' : System) (b : Address) : Prop where
  trove : ∃ i, s'.troveManager.Troves b = { s.troveManager.Troves b with arrayIndex := i }
  snapshot : s'.troveManager.rewardSnapshots b = s.troveManager.rewardSnapshots b
  L_WSTETH_le : s.troveManager.L_WSTETH ≤ s'.troveManager.L_WSTETH
  L_SIMDebt_le : s.troveManager.L_SIMDebt ≤ s'.troveManager.L_SIMDebt

theorem TroveManager.SamePosition.untouched (h : SamePosition s s' b) : Untouched s s' b :=
  ⟨h.trove, h.snapshot, h.L_WSTETH.ge, h.L_SIMDebt.ge⟩

theorem Untouched.trans (h : Untouched s s₁ b) (h' : Untouched s₁ s' b) : Untouched s s' b := by
  obtain ⟨i, hi⟩ := h.trove
  obtain ⟨j, hj⟩ := h'.trove
  refine ⟨⟨j, ?_⟩, h'.snapshot.trans h.snapshot, h.L_WSTETH_le.trans h'.L_WSTETH_le, h.L_SIMDebt_le.trans h'.L_SIMDebt_le⟩
  rw [hj, hi]

theorem Untouched.status (h : Untouched s s' b) : (TroveManager.trove s' b).status = (TroveManager.trove s b).status := by
  obtain ⟨i, hi⟩ := h.trove
  rw [TroveManager.trove, hi]
  rfl

theorem sendWSTETH_surplus {caller account : Address} (h : ActivePool.sendWSTETH c caller s account amount = .ok s') :
    s'.collSurplusPool.balances = s.collSurplusPool.balances := by
  obtain ⟨-, t, -, hn⟩ := ActivePool.sendWSTETH_ok h
  rw [hn.collSurplusPool]

/-- the payments touch no trove, and no surplus that is credited -/
theorem finishLiquidation_untouched {t : LiquidationTotals} (hne : sender ≠ c.defaultPool)
    (h : finishLiquidation c env sender s t = .ok s') (b : Address) :
    Untouched s s' b ∧ s'.collSurplusPool.balances = s.collSurplusPool.balances := by
  obtain ⟨s₁, s₂, s₃, s₄, hs⟩ := finishLiquidation_ok h
  have hoffset : s₁.collSurplusPool.balances = s.collSurplusPool.balances := by
    rcases offset_steps hs.offset with ⟨-, rfl⟩ | ⟨-, -, issued, pool, u, -, -, hsent⟩
    · rfl
    · exact (sendWSTETH_surplus hsent).trans rfl
  have hred : Untouched s₁ s₂ b ∧ s₂.collSurplusPool.balances = s₁.collSurplusPool.balances := by
    rcases redistributeDebtAndColl_ok hs.redistributed with ⟨-, rfl⟩ | ⟨-, hred⟩
    · exact ⟨(SamePosition.refl _ b).untouched, rfl⟩
    · obtain ⟨rw, ew, rd, ed, u, -, -, -, rfl⟩ := hred.state
      exact ⟨⟨⟨_, rfl⟩, rfl, Nat.le_add_right _ _, Nat.le_add_right _ _⟩, rfl⟩
  have hsurplus : s₃.collSurplusPool.balances = s₂.collSurplusPool.balances := by
    have h3 := hs.surplus
    unfold sendCollSurplus at h3
    split_ifs at h3
    · exact sendWSTETH_surplus h3
    · cases h3
      rfl
  have hsnapshot : SamePosition s₃ s₄ b ∧ s₄.collSurplusPool = s₃.collSurplusPool := by
    obtain ⟨-, rfl⟩ := updateSystemSnapshots_ok hs.snapshot
    exact ⟨⟨rfl, rfl, rfl, _, rfl⟩, rfl⟩
  have hgas : s'.collSurplusPool.balances = s₄.collSurplusPool.balances := by
    have h5 := hs.compensation
    unfold sendGasCompensation at h5
    split_ifs at h5
    · exact sendWSTETH_surplus h5
    · cases h5
      rfl
  refine ⟨?_, by rw [hgas, hsnapshot.2, hsurplus, hred.2, hoffset]⟩
  exact (SamePosition.of_frame (offset_frame hs.offset)).untouched.trans <| hred.1.trans <|
    (SamePosition.of_frame (sendCollSurplus_frame hs.surplus)).untouched.trans <| hsnapshot.1.untouched.trans
      (SamePosition.of_frame (sendGasCompensation_frame hne hs.compensation)).untouched

def Call.isLiquidation : Call → Bool
  | .liquidate _ | .liquidateTroves _ | .batchLiquidateTroves _ => true
  | _ => false

def Call.isRedemption : Call → Bool
  | .redeemCollateral _ => true
  | _ => false

/-- a liquidation is one of the loops and the payments -/
theorem exec_liquidation {tx : Tx c} (hcall : tx.call.isLiquidation = true) (h : exec c s tx = .ok s') :
    ∃ price mode v, tx.env.fetchPrice = .ok price ∧ checkRecoveryMode s price = .ok mode ∧ Totals c price s mode v ∧
      finishLiquidation c tx.env tx.sender.address v.s v.totals = .ok s' := by
  obtain ⟨env, sender, call⟩ := tx
  unfold exec at h
  cases call with
  | liquidate borrower =>
    obtain ⟨price, mode, v, hl⟩ := liquidate_ok h
    exact ⟨price, mode, v, hl.fetched, hl.recovery, .inr ⟨_, hl.counted⟩, hl.finished⟩
  | liquidateTroves n =>
    obtain ⟨price, mode, v, hl⟩ := liquidateTroves_ok h
    exact ⟨price, mode, v, hl.fetched, hl.recovery, .inl ⟨_, hl.counted⟩, hl.finished⟩
  | batchLiquidateTroves troveArray =>
    obtain ⟨price, mode, v, hl⟩ := batchLiquidateTroves_ok h
    exact ⟨price, mode, v, hl.fetched, hl.recovery, .inr ⟨_, hl.counted⟩, hl.finished⟩
  | _ => exact nomatch hcall

/-- what a liquidation does to the trove of one borrower -/
inductive Fate (s s' : System) (price : ℕ) (b : Address) : Prop
  | left_ (h : Untouched s s' b) (hsurplus : s'.collSurplusPool.balances b = s.collSurplusPool.balances b)
  | closed (surplus : ℕ) (hstatus : (trove s' b).status = .closedByLiquidation) (hreason : Reason s price b surplus)
      (hsurplus : s'.collSurplusPool.balances b = s.collSurplusPool.balances b + surplus)

theorem exec_fate {tx : Tx c} (hreg : Registry s) (hcall : tx.call.isLiquidation = true) (hprice : tx.env.fetchPrice = .ok price)
    (h : exec c s tx = .ok s') (hactive : (trove s b).status = .active) : Fate s s' price b := by
  obtain ⟨price', mode, v, hprice', hmode, htotals, hfinish⟩ := exec_liquidation hcall h
  obtain rfl : price' = price := Except.ok.inj (hprice'.symm.trans hprice)
  have hne : tx.sender.address ≠ c.defaultPool := fun e => tx.sender.notMem_pools (by simp [Config.pools, e])
  have hpicked := htotals.picked hreg hmode
  obtain ⟨huntouched, hsurplus⟩ := finishLiquidation_untouched hne hfinish b
  by_cases hv : (trove v.s b).status = .active
  · obtain ⟨hsame, hbalance⟩ := hpicked.left_ b hv
    exact .left_ (hsame.untouched.trans huntouched) (by rw [hsurplus, hbalance])
  · obtain ⟨hstatus, surplus, hreason, hbalance⟩ := hpicked.closed b hactive hv
    exact .closed surplus (huntouched.status.trans hstatus) hreason (by rw [hsurplus, hbalance])

/-! ## Transactions of others -/

theorem openTrove_others {maxFee SIMAmount : ℕ} {p q : Address} (hne : b ≠ sender)
    (h : openTrove c env sender s amount maxFee SIMAmount p q = .ok s') : SamePosition s s' b := by
  obtain ⟨price, mode, s₁, s₂, s₃, s₄, netDebt, hs⟩ := openTrove_ok h
  obtain ⟨ICR, NICR, -, -, -, hc⟩ := hs.created
  obtain ⟨stake, -, -, htm⟩ := hc.stake
  have hcreated : SamePosition s₂ s₃ b := by
    refine ⟨by rw [htm]; rfl, by rw [htm]; rfl, ?_, (s₂.troveManager.Troves b).arrayIndex, ?_⟩ <;> rw [htm]
    · exact Function.update_of_ne hne _ _
    · exact createdManager_other _ _ _ _ hne
  exact (SamePosition.of_frame (transferFromWSTETH_frame hs.received)).trans <|
    (SamePosition.of_frame (chargeFee_frame hs.fee)).trans <| hcreated.trans <|
      (SamePosition.of_frame (activePoolAddColl_frame hs.added)).trans (.of_frame (issueSIM_frame hs.issued))

theorem adjust_others {args : AdjustArgs} {account : Address} (hdefault : account ≠ c.defaultPool) (hne : b ≠ a)
    (h : adjust c env account s a args = .ok s') : SamePosition s s' b := by
  obtain ⟨price, mode, s₁, s₂, s₃, net, hs⟩ := adjust_ok h
  exact ((settlePendingRewards_settled hs.settled).others b hne).trans <|
    (SamePosition.of_frame (chargeFee_frame hs.fee)).trans <| (hs.edited.others hne).trans
      (.of_frame (moveTokens_frame hdefault hs.moved))

theorem closeTrove_others (hdefault : sender ≠ c.defaultPool) (hne : b ≠ sender)
    (h : BorrowerOperations.closeTrove c env sender s = .ok s') : SamePosition s s' b := by
  obtain ⟨price, s₁, s₂, s₃, s₄, hs⟩ := closeTrove_ok h
  exact ((settlePendingRewards_settled hs.settled).others b hne).trans <|
    ((shut_closed hs.unstaked hs.shut).gone.others b hne).trans <|
      (SamePosition.of_frame (burnSIM_frame hs.burned)).trans (.of_frame (sendWSTETH_frame hs.sent hdefault))

/-- a transaction of somebody else that neither liquidates nor redeems -/
theorem exec_others {tx : Tx c} (hne : b ≠ tx.sender.address) (hliquidation : tx.call.isLiquidation = false)
    (hredemption : tx.call.isRedemption = false) (h : exec c s tx = .ok s') : SamePosition s s' b := by
  obtain ⟨env, sender, call⟩ := tx
  have hdefault : sender.address ≠ c.defaultPool := fun e => sender.notMem_pools (by simp [Config.pools, e])
  unfold exec at h
  cases call with
  | openTrove amount maxFee SIMAmount p n => exact openTrove_others hne h
  | addColl amount p n =>
    obtain ⟨s₁, h1, h⟩ := bind_ok.1 h
    exact (SamePosition.of_frame (transferFromWSTETH_frame h1)).trans (adjust_others hdefault hne h)
  | withdrawColl w p n => exact adjust_others hdefault hne h
  | withdrawSIM maxFee SIMAmount p n => exact adjust_others hdefault hne h
  | repaySIM SIMAmount p n => exact adjust_others hdefault hne h
  | adjustTrove amount args =>
    obtain ⟨s₁, h1, h⟩ := bind_ok.1 h
    have hreceived : SamePosition s s₁ b := by
      unfold receiveColl at h1
      split_ifs at h1
      · exact .of_frame (transferFromWSTETH_frame h1)
      · cases h1
        exact .refl s b
    exact hreceived.trans (adjust_others hdefault hne h)
  | closeTrove => exact closeTrove_others hdefault hne h
  | claimCollateral => exact .of_frame (claimCollateral_frame h)
  | provideToSP amount => exact .of_frame (provideToSP_frame h)
  | withdrawFromSP amount => exact .of_frame (withdrawFromSP_frame h)
  | withdrawWSTETHGainToTrove p n =>
    obtain ⟨pool, t, s₁, -, -, -, rfl, h⟩ := withdrawWSTETHGainToTrove_ok h
    have hf : Frame s { s with stabilityPool := pool, wsteth := t } := .of_eq rfl rfl rfl
    exact (SamePosition.of_frame hf).trans (adjust_others (Ne.symm c.ne.2.2.2.1) hne h)
  | transferSIM recipient amount =>
    obtain ⟨-, t, -, rfl⟩ := SIMToken.transfer_ok h
    exact .of_eq rfl
  | transferFromSIM src recipient amount =>
    obtain ⟨-, t, -, rfl⟩ := SIMToken.transferFrom_ok h
    exact .of_eq rfl
  | transferWSTETH recipient amount => exact .of_frame (transferWSTETH_frame h)
  | transferFromWSTETH src recipient amount => exact .of_frame (transferFromWSTETH_frame h)
  | approveSIM spender amount | approveWSTETH spender amount | mintWSTETH amount | burnWSTETH amount =>
    obtain ⟨t, -, h⟩ := bind_ok.1 h
    cases h
    exact .of_eq rfl
  | liquidate _ | liquidateTroves _ | batchLiquidateTroves _ => cases hliquidation
  | redeemCollateral _ => cases hredemption

/-! ## Results -/

/-- **Whom a liquidation may close.** In every reachable state and for every one of the three liquidation calls that succeeds at
the fetched price: the record of a borrower's trove is left as it was, or the trove is closed because its ICR is below MCR, or,
in recovery mode, because it is below CCR and the Stability Pool pays the whole debt; only then there is a surplus, of what the
trove held beyond 110% of its debt. -/
theorem liquidation_eligible (c : Config) (calls : List (Tx c)) (tx : Tx c) (hcall : tx.call.isLiquidation = true) (price : ℕ)
    (hprice : tx.env.fetchPrice = .ok price) (s' : System) (h : exec c (reached c calls) tx = .ok s') (b : Address)
    (hactive : (trove (reached c calls) b).status = .active) : Fate (reached c calls) s' price b :=
  exec_fate (reached_registry calls) hcall hprice h hactive

/-- Alice's trove is closed at half the price, and so was not left alone -/
theorem liquidation_eligible_alice :
    ∃ s', exec exampleConfig (reached exampleConfig twoTroves) (atPrice (1000 * 10 ^ 18) bob (.liquidate 1)) = .ok s' ∧
      Fate (reached exampleConfig twoTroves) s' (1000 * 10 ^ 18) 1 ∧ (trove s' 1).status = .closedByLiquidation := by
  obtain ⟨s', h⟩ : ∃ s', exec exampleConfig (reached exampleConfig twoTroves)
      (atPrice (1000 * 10 ^ 18) bob (.liquidate 1)) = .ok s' := Res.failure_none (by decide +kernel)
  have hstatus : (exec exampleConfig (reached exampleConfig twoTroves) (atPrice (1000 * 10 ^ 18) bob (.liquidate 1))).map
      (fun s => (trove s 1).status) = .ok .closedByLiquidation := by decide +kernel
  rw [h] at hstatus
  exact ⟨s', h, liquidation_eligible exampleConfig twoTroves (atPrice (1000 * 10 ^ 18) bob (.liquidate 1)) rfl _ rfl s' h 1
    (by decide +kernel), Except.ok.inj hstatus⟩

/-- the ICR of a trove at which nobody may liquidate it: CCR, or MCR in normal mode -/
def WellCollateralized (s : System) (price : ℕ) (b : Address) : Prop :=
  MCR ≤ (getCurrentICR s b price).shown ∧
    (CCR ≤ (getCurrentICR s b price).shown ∨ checkRecoveryMode s price = .ok false)

instance (s : System) (price : ℕ) (b : Address) : Decidable (WellCollateralized s price b) :=
  inferInstanceAs (Decidable (_ ∧ _))

theorem WellCollateralized.not_reason (h : WellCollateralized s price b) (hreason : Reason s price b surplus) : False := by
  obtain ⟨hMCR, hCCR⟩ := h
  cases hreason with
  | low ICR hICR hlow =>
    rw [hICR, Res.shown] at hMCR
    omega
  | capped ICR t hmode hICR hlow ht hpool =>
    rw [hICR, Res.shown] at hCCR
    rcases hCCR with hCCR | hCCR
    · omega
    · rw [hmode] at hCCR
      cases hCCR

/-- somebody else's transaction that is no redemption, nor a liquidation at a price at which the trove is badly collateralised -/
def Harmless (c : Config) (b : Address) (s : System) (tx : Tx c) : Prop :=
  b ≠ tx.sender.address ∧ tx.call.isRedemption = false ∧
    (tx.call.isLiquidation = true → WellCollateralized s tx.env.fetchPrice.shown b)

instance (c : Config) (b : Address) (s : System) (tx : Tx c) : Decidable (Harmless c b s tx) :=
  inferInstanceAs (Decidable (_ ∧ _ ∧ (_ → _)))

/-- **A trove is its owner's.** From any reachable state, along any successful transactions of others: as long as nobody redeems and
the trove is well collateralised whenever somebody liquidates, it stays open with the collateral, debt and stake it had; only
its pending rewards grow. -/
theorem trove_left_alone (c : Config) (before later : List (Tx c)) (b : Address)
    (hactive : (trove (reached c before) b).status = .active)
    (hharmless : AlongOk (exec c) (Harmless c b) (reached c before) later) :
    Untouched (reached c before) (reached c (before ++ later)) b := by
  have hrun : reached c (before ++ later) = run (exec c) (reached c before) later := List.foldl_append ..
  rw [hrun]
  have h := run_inv_ok (exec c) (I := fun s => Registry s ∧ Untouched (reached c before) s b) ?_ (reached c before) later
    ⟨reached_registry before, (SamePosition.refl _ b).untouched⟩ hharmless
  · exact h.2
  · intro s tx s' ⟨hreg, hs⟩ ⟨hne, hredemption, hliquidation⟩ h
    refine ⟨exec_registry hreg h, hs.trans ?_⟩
    by_cases hcall : tx.call.isLiquidation = true
    · obtain ⟨price, mode, v, hprice, -, -, -⟩ := exec_liquidation hcall h
      have hwell := hliquidation hcall
      rw [hprice, Res.shown] at hwell
      cases exec_fate hreg hcall hprice h (hs.status.trans hactive) with
      | left_ huntouched _ => exact huntouched
      | closed surplus _ hreason _ => exact (hwell.not_reason hreason).elim
    · exact (exec_others hne (Bool.eq_false_iff.2 hcall) hredemption h).untouched

/-- Alice's trove is liquidated, and its debt goes to Bob's, which is left alone -/
theorem trove_left_alone_bob :
    Untouched (reached exampleConfig twoTroves)
        (reached exampleConfig (twoTroves ++ [atPrice (1000 * 10 ^ 18) carol (.liquidate 1)])) 2 ∧
      getPendingSIMDebtReward (reached exampleConfig (twoTroves ++ [atPrice (1000 * 10 ^ 18) carol (.liquidate 1)])) 2 =
        .ok (1005 * 10 ^ 15) :=
  ⟨trove_left_alone exampleConfig twoTroves _ 2 (by decide +kernel) (by decide +kernel), by decide +kernel⟩

end SimContracts.Protocol
