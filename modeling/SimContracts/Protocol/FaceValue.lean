/-
Redemptions at face value. A borrower's equity at a price is what the trove and the surplus hold, less the debt, with the
rewards applied. A redemption takes collateral and debt from a trove that are worth the same, up to the rounding of one
division, which is in the borrower's favour; the surplus of a trove that is paid off stays its owner's. So no equity falls
and none rises by the price of one unit of collateral, whatever the hints and the order of the list.

The caller pays for it: at most the face value of the SIM burned is drawn, and the fee comes out of it, at least half a percent
and at most what the caller accepted.

Results:
  redemption_fair   equities, burn and fee of every redemption from a reachable state
-/
import SimContracts.Protocol.Redeeming

namespace SimContracts.Protocol

open Solidity TroveManager BorrowerOperations

variable {c : Config} {env : Env} {s s' s₁ : System} {a b sender : Address} {price amount n lot : ℕ} {xs : List Address}
  {hint : PartialRedemptionHint} {t t' : RedemptionTotals}

/-! ## Equity -/

/-- collateral and surplus at the price less the debt, in units of 1e-18 SIM·wstETH -/
def equity (s : System) (price : ℕ) (a : Address) : ℤ :=
  (settledColl s a + s.collSurplusPool.balances a) * price - settledDebt s a * DECIMAL_PRECISION

theorem equity_congr (h : SamePosition s s' a) (hsurplus : s'.collSurplusPool.balances a = s.collSurplusPool.balances a) :
    equity s' price a = equity s price a := by
  rw [equity, h.settledColl, h.settledDebt, hsurplus, equity]

/-- nothing is pending once the rewards were applied -/
theorem Settled.reported (h : Settled s s' b) : hasPendingRewards s' b = false := by
  rw [hasPendingRewards, decide_eq_false_iff_not, h.arrived.snapshot, h.arrived.L_WSTETH, h.arrived.status]
  split_ifs with hhas
  · exact fun hpending => absurd hpending.2 (lt_irrefl _)
  · simpa [hasPendingRewards] using hhas

theorem settledColl_of_not (h : hasPendingRewards s a = false) : settledColl s a = (trove s a).coll := by
  rw [settledColl, h, if_neg Bool.false_ne_true, Nat.add_zero]

theorem settledDebt_of_not (h : hasPendingRewards s a = false) : settledDebt s a = (trove s a).debt := by
  rw [settledDebt, h, if_neg Bool.false_ne_true, Nat.add_zero]

/-- applying rewards changes nobody's equity -/
theorem settlePendingRewards_equity (h : settlePendingRewards c s b = .ok s') (a : Address) :
    equity s' price a = equity s price a := by
  have hsettled := settlePendingRewards_settled h
  have hsurplus := (settlePendingRewards_walked h).2
  by_cases ha : a = b
  · subst ha
    rw [equity, settledColl_of_not hsettled.reported, settledDebt_of_not hsettled.reported, hsettled.coll, hsettled.debt,
      hsurplus, equity]
  · exact equity_congr (hsettled.others a ha) (by rw [hsurplus])

/-! ## One trove -/

/-- the equity of `b` alone may change, upwards by less than the price of one unit of collateral -/
structure Rounded (s s' : System) (price : ℕ) (b : Address) : Prop where
  others : ∀ a, a ≠ b → equity s' price a = equity s price a
  le : equity s price b ≤ equity s' price b
  lt : equity s' price b < equity s price b + price

/-- what is taken from a trove is worth the debt that is cancelled, rounded down -/
theorem rounded_of_taken {coll debt surplus : ℕ} (coll' debt' surplus' lot : ℕ) (hp : 0 < price)
    (hothers : ∀ a, a ≠ b → equity s' price a = equity s price a)
    (hs : equity s price b = (coll + surplus : ℤ) * price - debt * DECIMAL_PRECISION)
    (hs' : equity s' price b = (coll' + surplus' : ℤ) * price - debt' * DECIMAL_PRECISION)
    (hcoll : coll' + surplus' + lot * DECIMAL_PRECISION / price = coll + surplus) (hdebt : debt' + lot = debt) :
    Rounded s s' price b := by
  -- the remainder of the division is what the borrower gains
  have hdiv : price * (lot * DECIMAL_PRECISION / price) + lot * DECIMAL_PRECISION % price = lot * DECIMAL_PRECISION :=
    Nat.div_add_mod _ _
  have hmod : lot * DECIMAL_PRECISION % price < price := Nat.mod_lt _ hp
  have hgain : equity s' price b = equity s price b + (lot * DECIMAL_PRECISION % price : ℕ) := by
    have hcoll : (coll' + surplus' : ℤ) + (lot * DECIMAL_PRECISION / price : ℕ) = coll + surplus := by exact_mod_cast hcoll
    have hdebt : (debt' : ℤ) + lot = debt := by exact_mod_cast hdebt
    have hdiv : (price : ℤ) * (lot * DECIMAL_PRECISION / price : ℕ) + (lot * DECIMAL_PRECISION % price : ℕ) =
        lot * DECIMAL_PRECISION := by exact_mod_cast hdiv
    rw [hs, hs', ← hcoll, ← hdebt]
    linarith
  refine ⟨hothers, ?_, ?_⟩
  · rw [hgain]
    exact le_add_of_nonneg_right (Int.natCast_nonneg _)
  · rw [hgain]
    have hmod : ((lot * DECIMAL_PRECISION % price : ℕ) : ℤ) < price := by exact_mod_cast hmod
    linarith

theorem Rounded.refl (hp : 0 < price) : Rounded s s price b :=
  ⟨fun _ _ => rfl, le_rfl, lt_add_of_pos_right _ (by exact_mod_cast hp)⟩

theorem Rounded.settle (h : Rounded s₁ s' price b) (hs : ∀ a, equity s₁ price a = equity s price a) : Rounded s s' price b :=
  ⟨fun a ha => (h.others a ha).trans (hs a), (hs b) ▸ h.le, (hs b) ▸ h.lt⟩

theorem Closed.record {status : Status} (h : Closed s s' b status) :
    (trove s' b).coll = 0 ∧ (trove s' b).debt = 0 ∧ hasPendingRewards s' b = false := by
  obtain ⟨⟨i, hi⟩, -⟩ := h.troves
  rw [hasPendingRewards, hi]
  exact ⟨rfl, rfl, decide_eq_false fun hpending => h.closedStatus.2 hpending.1⟩

/-- a trove whose rewards were applied is redeemed from -/
theorem redeemCollateralFromTrove_rounded {w : SingleRedemptionValues} (hno : hasPendingRewards s b = false)
    (h : redeemCollateralFromTrove c s b amount price hint = .ok (s', w)) : Rounded s s' price b := by
  obtain ⟨⟨hlot, hdrawn, hp, hle⟩, hcase⟩ := redeemCollateralFromTrove_ok h
  have hs : equity s price b = ((trove s b).coll + s.collSurplusPool.balances b : ℤ) * price -
      (trove s b).debt * DECIMAL_PRECISION := by
    rw [equity, settledColl_of_not hno, settledDebt_of_not hno]
  rcases hcase with ⟨-, hall, s₁, s₂, h1, h2, h3⟩ | ⟨-, NICR, -, ⟨-, rfl, -⟩ | ⟨-, -, -, hedit⟩⟩
  · -- the trove is closed and its owner credited with the rest
    have hclosed := shut_closed h1 h2
    obtain ⟨hcoll, hdebt, hno'⟩ := hclosed.record
    have hframe := redeemCloseTrove_frame h3
    obtain ⟨-, hbalances⟩ := redeemCloseTrove_walked h3
    rw [(walked_of_rest (c := c) hclosed.rest).2] at hbalances
    obtain ⟨hcoll', hdebt', -, -⟩ := (SamePosition.of_frame (a := b) hframe).fields
    have hno'' : hasPendingRewards s' b = false := (SamePosition.of_frame hframe).hasPendingRewards.trans hno'
    refine rounded_of_taken 0 0 (s.collSurplusPool.balances b + ((trove s b).coll - w.WSTETHLot)) w.SIMLot hp
      (fun a ha => ?_) hs ?_ ?_ ?_
    · refine equity_congr ((hclosed.gone.others a ha).trans (.of_frame hframe)) ?_
      rw [hbalances, Function.update_of_ne ha]
    · rw [equity, settledColl_of_not hno'', settledDebt_of_not hno'', hcoll', hdebt', hcoll, hdebt, hbalances,
        Function.update_self]
    · rw [← hdrawn]
      omega
    · rw [hall, Nat.zero_add]
  · exact .refl hp
  · -- the trove keeps the rest
    have hsurplus : s'.collSurplusPool = s.collSurplusPool := (walked_of_rest (c := c) hedit.rest).2
    obtain ⟨stake, -, -, htm⟩ := hedit.stake
    have hno' : hasPendingRewards s' b = false := by
      rw [← hno, hasPendingRewards, hasPendingRewards, trove, htm]
      simp only [Function.update_self]
    refine rounded_of_taken ((trove s b).coll - w.WSTETHLot) ((trove s b).debt - w.SIMLot)
      (s.collSurplusPool.balances b) w.SIMLot hp (fun a ha => equity_congr (hedit.others ha) (by rw [hsurplus])) hs ?_ ?_ ?_
    · rw [equity, settledColl_of_not hno', settledDebt_of_not hno', hsurplus, trove, htm]
      simp only [Function.update_self]
    · rw [← hdrawn]
      omega
    · omega

/-! ## The walk -/

/-- the troves that the walk has not come to keep their equity, the others gain less than a unit each -/
structure WalkRounded (s s' : System) (price : ℕ) (xs : List Address) : Prop where
  others : ∀ a, a ∉ xs → equity s' price a = equity s price a
  le : ∀ a, equity s price a ≤ equity s' price a
  lt : ∀ a, equity s' price a < equity s price a + price

theorem WalkRounded.nothing (hp : 0 < price) (h : ∀ a, equity s' price a = equity s price a) : WalkRounded s s' price xs :=
  ⟨fun a _ => h a, fun a => (h a).ge, fun a => by rw [h a]; exact lt_add_of_pos_right _ (by exact_mod_cast hp)⟩

/-- a trove is redeemed from once -/
theorem WalkRounded.snoc (h : Rounded s s₁ price b) (hb : b ∉ xs) (h' : WalkRounded s₁ s' price xs) :
    WalkRounded s s' price (xs ++ [b]) := by
  refine ⟨fun a ha => ?_, fun a => ?_, fun a => ?_⟩
  · rw [List.mem_append, List.mem_singleton, not_or] at ha
    exact (h'.others a ha.1).trans (h.others a ha.2)
  · by_cases ha : a = b
    · subst ha
      exact h.le.trans (h'.others a hb).ge
    · exact (h.others a ha).ge.trans (h'.le a)
  · by_cases ha : a = b
    · subst ha
      exact (h'.others a hb).trans_lt h.lt
    · exact (h'.lt a).trans_eq (by rw [h.others a ha])

theorem redeemLoop_rounded (hp : 0 < price) (hw : Walk t.s t.s xs)
    (h : redeemLoop c price hint n (xs.getLastD 0) t = .ok t') : WalkRounded t.s t'.s price xs := by
  induction n generalizing xs t with
  | zero =>
    cases h
    exact .nothing hp fun _ => rfl
  | succ n ih =>
    rcases xs.eq_nil_or_concat with rfl | ⟨us, b, rfl⟩
    · cases (redeemLoop_done (.inl rfl)).symm.trans h
      exact .nothing hp fun _ => rfl
    simp only [List.concat_eq_append] at hw h ⊢
    rw [List.getLastD_concat] at h
    by_cases hrem : t.remainingSIM = 0
    · rw [redeemLoop_done (.inr hrem)] at h
      cases h
      exact .nothing hp fun _ => rfl
    have hb : b ≠ 0 := by
      obtain ⟨ys, hc⟩ := hw.now
      exact hc.mem_ne_zero (by simp)
    unfold redeemLoop at h
    rw [if_neg (by simp [hb, hrem])] at h
    obtain ⟨s₁, h1, h⟩ := bind_ok.1 h
    obtain ⟨⟨s₂, w⟩, h2, h⟩ := bind_ok.1 h
    have hsettled := settlePendingRewards_settled h1
    have hstep : Rounded t.s s₂ price b :=
      (redeemCollateralFromTrove_rounded hsettled.reported h2).settle (settlePendingRewards_equity h1)
    obtain ⟨⟨hlot, -, -, -⟩, hcase⟩ := redeemCollateralFromTrove_ok h2
    rcases hcase with ⟨hnot, -, s₃, s₄, h3, h4, h5⟩ | ⟨hlt, NICR, -, ⟨hcancel, -, -⟩ | ⟨hnot, -, -, -⟩⟩
    · -- paid off: the walk goes on from the trove above
      simp only [hnot, Bool.false_eq_true, if_false, uadd_bind, usub_bind] at h
      obtain ⟨-, -, -, h⟩ := h
      rw [hw.getPrev.1] at h
      have hgone := hsettled.gone (shut_closed h3 h4).gone
      obtain ⟨zs, hnow⟩ := ((hw.pass hgone).frame (redeemCloseTrove_frame h5)).now
      exact .snoc hstep hw.notMem (ih (.begin_ hnow) h)
    · simp only [hcancel, if_true, pure_ok] at h
      rw [← h]
      exact .snoc hstep hw.notMem (.nothing hp fun _ => rfl)
    · -- redeemed in part: nothing of the amount is left
      simp only [hnot, Bool.false_eq_true, if_false, uadd_bind, usub_bind] at h
      obtain ⟨-, -, -, h⟩ := h
      have hrest : w.SIMLot = t.remainingSIM := by omega
      rw [redeemLoop_done (.inr (by dsimp only; omega))] at h
      cases h
      exact .snoc hstep hw.notMem (.nothing hp fun _ => rfl)

/-- the sum of the lots' values is at most the value of their sum -/
theorem sum_lots_le (K : List (Address × ℕ)) (price : ℕ) :
    (K.map fun x => x.2 * DECIMAL_PRECISION / price).sum * price ≤ (K.map Prod.snd).sum * DECIMAL_PRECISION := by
  induction K with
  | nil => simp
  | cons x K ih =>
    rw [List.map_cons, List.map_cons, List.sum_cons, List.sum_cons, Nat.add_mul, Nat.add_mul]
    exact Nat.add_le_add (Nat.div_mul_le_self _ _) ih

/-! ## The payments -/

/-- the fee of a redemption that draws `drawn`: at least half a percent, at most what the caller accepts, less than all -/
structure FeeBounds (drawn maxFee fee : ℕ) : Prop where
  floor : REDEMPTION_FEE_FLOOR * drawn / DECIMAL_PRECISION ≤ fee
  accepted : fee * DECIMAL_PRECISION / drawn ≤ maxFee
  lt : fee < drawn

theorem finishRedemption_fee {maxFee supply : ℕ} (h : finishRedemption c env sender price maxFee supply t = .ok s') :
    ∃ fee, FeeBounds t.totalWSTETHDrawn maxFee fee ∧ ∀ a, a ∉ c.pools → s'.wsteth.balanceOf a =
      t.s.wsteth.balanceOf a + (if a = c.wstETHVeDistributor then fee else 0) +
        if a = sender then t.totalWSTETHDrawn - fee else 0 := by
  simp only [finishRedemption, require_bind] at h
  obtain ⟨-, h⟩ := h
  obtain ⟨s₁, h1, h⟩ := bind_ok.1 h
  obtain ⟨r, time, rfl⟩ := updateBaseRateFromRedemption_ok h1
  obtain ⟨fee, hfee, h⟩ := bind_ok.1 h
  obtain ⟨⟨⟩, haccepts, h⟩ := bind_ok.1 h
  obtain ⟨s₂, h2, h⟩ := bind_ok.1 h
  obtain ⟨_, -, h⟩ := bind_ok.1 h
  simp only [usub_bind] at h
  obtain ⟨-, h⟩ := h
  obtain ⟨s₃, h3, h⟩ := bind_ok.1 h
  obtain ⟨s₄, h4, h⟩ := bind_ok.1 h
  simp only [getRedemptionFee, calcRedemptionRate, uadd_bind, umul_bind, udiv_bind, require_bind, bind_assoc, pure_bind,
    pure_ok] at hfee
  obtain ⟨-, -, -, hlt, rfl⟩ := hfee
  simp only [requireUserAcceptsFee, umul_bind, udiv_bind, require_ok] at haccepts
  obtain ⟨-, -, haccepted⟩ := haccepts
  refine ⟨_, ⟨?_, haccepted, hlt⟩, fun a ha => ?_⟩
  · refine Nat.div_le_div_right (Nat.mul_le_mul_right _ (le_min (Nat.le_add_right _ _) (by decide)))
  · have hactive : a ≠ c.activePool := fun e => ha (by simp [Config.pools, e])
    obtain ⟨-, w, hw, hn⟩ := ActivePool.sendWSTETH_ok h2
    obtain ⟨u, -, rfl⟩ := SIMToken.burn_ok h3
    obtain ⟨-, rfl⟩ := ActivePool.decreaseSIMDebt_ok h4
    obtain ⟨-, w', hw', hn'⟩ := ActivePool.sendWSTETH_ok h
    dsimp only at hw'
    rw [hn.wsteth] at hw'
    rw [hn'.wsteth, ERC20.transfer_other hw' hactive, ERC20.transfer_other hw hactive]

/-! ## Main result -/

/-- what a redemption is worth: to everybody, and to the caller -/
structure RedemptionFair (c : Config) (s s' : System) (sender : Address) (price maxFee : ℕ) : Prop where
  le : ∀ a, equity s price a ≤ equity s' price a
  lt : ∀ a, equity s' price a < equity s price a + price
  caller : ∃ burned drawn fee, s.sim.burn sender burned = .ok s'.sim ∧ drawn * price ≤ burned * DECIMAL_PRECISION ∧
    FeeBounds drawn maxFee fee ∧ ∀ a, a ∉ c.pools → s'.wsteth.balanceOf a =
      s.wsteth.balanceOf a + (if a = c.wstETHVeDistributor then fee else 0) + if a = sender then drawn - fee else 0

/-- **Redemptions are fair.** Every redemption that goes through, from any reachable state and with any hints, leaves every
account the equity it had at the price, or more by less than one unit of collateral; the caller burns SIM of at least the value
that is drawn, and pays a fee between the floor and the accepted maximum out of it. -/
theorem redemption_fair (c : Config) (calls : List (Tx c)) (env : Env) (sender : Account c) (args : RedeemArgs) (price : ℕ)
    (hprice : env.fetchPrice = .ok price) (s' : System)
    (h : exec c (reached c calls) ⟨env, sender, .redeemCollateral args⟩ = .ok s') :
    RedemptionFair c (reached c calls) s' sender.address price args.maxFeePercentage := by
  generalize hs : reached c calls = s at *
  have hreg : Registry s := hs ▸ reached_registry calls
  obtain ⟨ids, hc, -⟩ := hreg.list
  obtain ⟨price', supply, user, t, hsteps⟩ := redeemCollateral_ok h
  cases hprice.symm.trans hsteps.fetched
  obtain ⟨xs, hw, rfl⟩ := exists_walk hc (firstBorrower_mem hc hsteps.first)
  have hactive := hw.active hreg
  obtain ⟨K, cancelled, he⟩ := redeemLoop_effects hw hactive hsteps.loop
  have hredeemed : t.totalSIMToRedeem = (K.map Prod.snd).sum := he.redeemed.trans (Nat.zero_add _)
  have hdrawn : t.totalWSTETHDrawn = (K.map fun x => x.2 * DECIMAL_PRECISION / price).sum := he.drawn.trans (Nat.zero_add _)
  have hpaid := finishRedemption_paid hsteps.finish
  obtain ⟨fee, hfee, hbalance⟩ := finishRedemption_fee hsteps.finish
  -- at a price of 0 nothing could be drawn
  have hp : 0 < price := by
    rcases Nat.eq_zero_or_pos price with rfl | hp
    · have hzero : t.totalWSTETHDrawn = 0 := by simp [hdrawn]
      have hlt := hfee.lt
      omega
    · exact hp
  have hrounded := redeemLoop_rounded hp hw hsteps.loop
  have hdefault : sender.address ≠ c.defaultPool := fun e => sender.notMem_pools (by simp [Config.pools, e])
  have hframe := finishRedemption_frame hdefault hsteps.finish
  have hequity : ∀ a, equity s' price a = equity t.s price a := fun a =>
    equity_congr (.of_frame hframe) (congrFun hpaid.surplus a)
  refine ⟨fun a => (hrounded.le a).trans (hequity a).ge, fun a => (hequity a).trans_lt (hrounded.lt a),
    t.totalSIMToRedeem, t.totalWSTETHDrawn, fee, ?_, ?_, hfee, fun a ha => ?_⟩
  · rw [← hpaid.burned, he.pools.sim]
  · rw [hdrawn, hredeemed]
    exact sum_lots_le K price
  · rw [hbalance a ha, he.pools.wsteth a ha]

/-- Bob redeems what Alice owes: her equity stays, in what is credited to her -/
theorem redemption_fair_bob :
    ∃ s', exec exampleConfig (reached exampleConfig twoTroves) (atPrice (2000 * 10 ^ 18) bob (.redeemCollateral bobRedeems)) = .ok s' ∧
      RedemptionFair exampleConfig (reached exampleConfig twoTroves) s' 2 (2000 * 10 ^ 18) (10 ^ 18) := by
  obtain ⟨s', hs'⟩ : ∃ s', exec exampleConfig (reached exampleConfig twoTroves)
      (atPrice (2000 * 10 ^ 18) bob (.redeemCollateral bobRedeems)) = .ok s' := Res.failure_none (by decide +kernel)
  exact ⟨s', hs', redemption_fair exampleConfig twoTroves (atPrice (2000 * 10 ^ 18) bob (.redeemCollateral bobRedeems)).env bob
    bobRedeems (2000 * 10 ^ 18) rfl s' hs'⟩

end SimContracts.Protocol
