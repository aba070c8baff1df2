/-
An account that sends nothing. Every function that takes tokens takes them from its caller, from a contract of the protocol
or out of an allowance; the contracts spend an allowance only for the owner who calls them. So whatever the others do, an
account that has approved nobody but contracts of the protocol keeps its SIM, its wstETH and the surplus it can claim.

Results:
  exec_intact         one transaction of somebody else
  bystander_keeps     any transactions of others: the tokens and the claimable surplus do not fall
  surplus_claimable   the surplus of an account can be claimed at any time, and all of it is paid
-/
import SimContracts.Protocol.Books

namespace SimContracts.ERC20

open Solidity

variable {t t' : ERC20} {src dst spender a : Address} {amount : ℕ}

theorem mint_le (h : mint t src amount = .ok t') (a : Address) :
    t.balanceOf a ≤ t'.balanceOf a ∧ t'.allowance = t.allowance := by
  obtain ⟨-, hal, hb⟩ := mint_ok h
  refine ⟨?_, hal⟩
  rw [hb]
  by_cases ha : a = src
  · rw [ha, Function.update_self]
    omega
  · rw [Function.update_of_ne ha]

theorem burn_other (h : burn t src amount = .ok t') (ha : a ≠ src) :
    t'.balanceOf a = t.balanceOf a ∧ t'.allowance = t.allowance := by
  obtain ⟨-, -, hal, hb⟩ := burn_ok h
  refine ⟨?_, hal⟩
  rw [hb, Function.update_of_ne ha]

/-- an approval by somebody else -/
theorem approve_other {owner : Address} (h : approve t owner spender amount = .ok t') (ha : a ≠ owner) :
    t'.balanceOf = t.balanceOf ∧ t'.allowance a = t.allowance a := by
  obtain ⟨hb, -, hal⟩ := approve_ok h
  exact ⟨hb, by rw [hal, Function.update_of_ne ha]⟩

/-- the spender moves the tokens of others, or has no allowance and moves nothing -/
theorem transferFrom_keeps (h : transferFrom t spender src dst amount = .ok t') (ha : a = src → t.allowance a spender = 0) :
    t.balanceOf a ≤ t'.balanceOf a ∧ ∀ x, t.allowance a x = 0 → t'.allowance a x = 0 := by
  obtain ⟨t₁, h1, h2⟩ := bind_ok.1 h
  obtain ⟨-, -, hal, -⟩ := transfer_ok h2
  have hbal := transfer_balance h2 a
  rw [hal]
  unfold spendAllowance at h1
  split_ifs at h1 with hmax
  · cases h1
    have hne : a ≠ src := by
      rintro rfl
      rw [ha rfl] at hmax
      exact absurd hmax (by simp [uintMax])
    rw [if_neg hne] at hbal
    exact ⟨by omega, fun x hx => hx⟩
  · simp only [require_bind] at h1
    obtain ⟨hle, h1⟩ := h1
    obtain ⟨hb, -, hal₁⟩ := approve_ok h1
    rw [hb] at hbal
    by_cases hne : a = src
    · have hzero := ha hne
      subst hne
      rw [hzero] at hle
      refine ⟨by split_ifs at hbal <;> omega, fun x hx => ?_⟩
      rw [hal₁, Function.update_self]
      by_cases hxs : x = spender
      · simp [hxs, hzero]
      · rw [Function.update_of_ne hxs, hx]
    · rw [if_neg hne] at hbal
      exact ⟨by omega, fun x hx => by rw [hal₁, Function.update_of_ne hne, hx]⟩

end SimContracts.ERC20

namespace SimContracts.Protocol

open Solidity TroveManager BorrowerOperations

variable {c : Config} {env : Env} {s s' s'' : System} {a b sender : Address} {amount : ℕ} {p n : Address}
  {v v' : LiquidationSequence}

/-! ## What an account keeps -/

/-- nobody but the contracts of the protocol may spend the tokens of `a` -/
structure Trusts (c : Config) (s : System) (a : Address) : Prop where
  sim : ∀ x, x ∉ c.contracts → s.sim.allowance a x = 0
  wsteth : ∀ x, x ∉ c.contracts → s.wsteth.allowance a x = 0

/-- nothing is taken from `a` -/
structure Intact (c : Config) (s s' : System) (a : Address) : Prop where
  trusts : Trusts c s' a
  sim : s.sim.balanceOf a ≤ s'.sim.balanceOf a
  wsteth : s.wsteth.balanceOf a ≤ s'.wsteth.balanceOf a
  surplus : s.collSurplusPool.balances a ≤ s'.collSurplusPool.balances a

/-- nothing is taken from `a` if nobody is allowed to -/
def Keeps (c : Config) (s s' : System) (a : Address) : Prop := Trusts c s a → Intact c s s' a

theorem Keeps.trans (h : Keeps c s s' a) (h' : Keeps c s' s'' a) : Keeps c s s'' a := by
  intro ht
  have h1 := h ht
  have h2 := h' h1.trusts
  exact ⟨h2.trusts, h1.sim.trans h2.sim, h1.wsteth.trans h2.wsteth, h1.surplus.trans h2.surplus⟩

/-- the allowances of `a` are left alone -/
theorem Keeps.of_le (hsim : s'.sim.allowance a = s.sim.allowance a) (hwsteth : s'.wsteth.allowance a = s.wsteth.allowance a)
    (h1 : s.sim.balanceOf a ≤ s'.sim.balanceOf a) (h2 : s.wsteth.balanceOf a ≤ s'.wsteth.balanceOf a)
    (h3 : s.collSurplusPool.balances a ≤ s'.collSurplusPool.balances a) : Keeps c s s' a :=
  fun ht => ⟨⟨fun x hx => by rw [hsim, ht.sim x hx], fun x hx => by rw [hwsteth, ht.wsteth x hx]⟩, h1, h2, h3⟩

theorem Keeps.of_eq (hsim : s'.sim = s.sim) (hwsteth : s'.wsteth = s.wsteth)
    (hsurplus : s'.collSurplusPool.balances = s.collSurplusPool.balances) : Keeps c s s' a :=
  .of_le (by rw [hsim]) (by rw [hwsteth]) (by rw [hsim]) (by rw [hwsteth]) (by rw [hsurplus])

theorem Keeps.refl (s : System) : Keeps c s s a := .of_eq rfl rfl rfl

/-! ## The tokens -/

/-- a transfer of wstETH by somebody else -/
theorem Keeps.wsteth {t : ERC20} {src dst : Address} (h : s.wsteth.transfer src dst amount = .ok t) (hsrc : a ≠ src)
    (hsim : s'.sim = s.sim) (hwsteth : s'.wsteth = t)
    (hsurplus : s.collSurplusPool.balances a ≤ s'.collSurplusPool.balances a) : Keeps c s s' a := by
  obtain ⟨-, -, hal, -⟩ := ERC20.transfer_ok h
  have hbal := ERC20.transfer_other h hsrc
  refine .of_le (by rw [hsim]) (by rw [hwsteth, hal]) (by rw [hsim]) ?_ hsurplus
  rw [hwsteth, hbal]
  exact Nat.le_add_right _ _

/-- a transfer of SIM by somebody else -/
theorem Keeps.sim {t : ERC20} {src dst : Address} (h : s.sim.transfer src dst amount = .ok t) (hsrc : a ≠ src)
    (hsim : s'.sim = t) (hwsteth : s'.wsteth = s.wsteth) (hsurplus : s'.collSurplusPool = s.collSurplusPool) :
    Keeps c s s' a := by
  obtain ⟨-, -, hal, -⟩ := ERC20.transfer_ok h
  have hbal := ERC20.transfer_other h hsrc
  refine .of_le (by rw [hsim, hal]) (by rw [hwsteth]) ?_ (by rw [hwsteth]) (by rw [hsurplus])
  rw [hsim, hbal]
  exact Nat.le_add_right _ _

/-- the owner calls the contract that spends the allowance -/
theorem transferFromWSTETH_keeps {spender src dst : Address} (hne : a ≠ src)
    (h : transferFromWSTETH s spender src dst amount = .ok s') : Keeps c s s' a := by
  obtain ⟨t, ht, rfl⟩ := transferFromWSTETH_ok h
  obtain ⟨hbal, hal⟩ := ERC20.transferFrom_keeps ht fun e => absurd e hne
  exact fun htrust => ⟨⟨htrust.sim, fun x hx => hal x (htrust.wsteth x hx)⟩, le_rfl, hbal, le_rfl⟩

theorem transferWSTETH_keeps {src dst : Address} (hne : a ≠ src) (h : transferWSTETH s src dst amount = .ok s') :
    Keeps c s s' a := by
  obtain ⟨t, ht, rfl⟩ := transferWSTETH_ok h
  exact .wsteth ht hne rfl rfl le_rfl

section Outside

variable (ha : a ∉ c.contracts)

include ha

theorem sendWSTETH_keeps {caller account : Address} (h : ActivePool.sendWSTETH c caller s account amount = .ok s') :
    Keeps c s s' a := by
  obtain ⟨-, t, ht, hn⟩ := ActivePool.sendWSTETH_ok h
  have hne : a ≠ c.activePool := fun e => ha (by simp [Config.contracts, e])
  refine .wsteth ht hne hn.sim hn.wsteth ?_
  rw [hn.collSurplusPool]

theorem TroveManager.Moved.keeps {SIM WSTETH : ℕ} (h : Moved c s s' SIM WSTETH) : Keeps c s s' a := by
  obtain ⟨t, ht, rfl⟩ := h.state
  exact .wsteth ht (fun e => ha (by simp [Config.contracts, e])) rfl rfl le_rfl

theorem settlePendingRewards_keeps (h : settlePendingRewards c s b = .ok s') : Keeps c s s' a := by
  rcases settlePendingRewards_ok h with ⟨-, rfl⟩ | ⟨-, pw, pd, -, -, hmoved⟩
  · exact .refl s'
  · have hbooked : Keeps c s { s with troveManager := settledManager s.troveManager b pw pd } a := .of_eq rfl rfl rfl
    exact hbooked.trans (hmoved.keeps ha)

theorem activePoolAddColl_keeps (h : activePoolAddColl c s amount = .ok s') : Keeps c s s' a := by
  obtain ⟨s₁, h1, h⟩ := bind_ok.1 h
  have hsent : Keeps c s s₁ a := transferWSTETH_keeps (fun e => ha (by simp [Config.contracts, e])) h1
  obtain rfl := ActivePool.receiveWSTETH_ok h
  exact hsent.trans (.of_eq rfl rfl rfl)

end Outside

theorem Keeps.minted {t : ERC20} {dst : Address} (h : s.sim.mint dst amount = .ok t) (hsim : s'.sim = t)
    (hwsteth : s'.wsteth = s.wsteth) (hsurplus : s'.collSurplusPool = s.collSurplusPool) : Keeps c s s' a := by
  obtain ⟨hle, hal⟩ := ERC20.mint_le h a
  exact .of_le (by rw [hsim, hal]) (by rw [hwsteth]) (by rw [hsim]; exact hle) (by rw [hwsteth]) (by rw [hsurplus])

theorem Keeps.burned {t : ERC20} {src : Address} (h : s.sim.burn src amount = .ok t) (hne : a ≠ src) (hsim : s'.sim = t)
    (hwsteth : s'.wsteth = s.wsteth) (hsurplus : s'.collSurplusPool = s.collSurplusPool) : Keeps c s s' a := by
  obtain ⟨hbal, hal⟩ := ERC20.burn_other h hne
  exact .of_le (by rw [hsim, hal]) (by rw [hwsteth]) (by rw [hsim, hbal]) (by rw [hwsteth]) (by rw [hsurplus])

theorem issueSIM_keeps {account : Address} {SIMAmount : ℕ} (h : issueSIM c s account SIMAmount amount = .ok s') :
    Keeps c s s' a := by
  obtain ⟨s₁, h1, h⟩ := bind_ok.1 h
  obtain rfl := ActivePool.increaseSIMDebt_ok h1
  obtain ⟨t, ht, rfl⟩ := SIMToken.mint_ok h
  exact .minted ht rfl rfl rfl

theorem burnSIM_keeps {account : Address} (hne : a ≠ account) (h : burnSIM c s account amount = .ok s') : Keeps c s s' a := by
  obtain ⟨s₁, h1, h⟩ := bind_ok.1 h
  obtain ⟨-, rfl⟩ := ActivePool.decreaseSIMDebt_ok h1
  obtain ⟨t, ht, rfl⟩ := SIMToken.burn_ok h
  exact .burned ht hne rfl rfl rfl

theorem chargeFee_keeps {charged : Bool} {SIMAmount maxFee netDebt : ℕ}
    (h : chargeFee c env s charged SIMAmount maxFee = .ok (s', netDebt)) : Keeps c s s' a := by
  obtain ⟨fee, hf⟩ := chargeFee_ok h
  obtain ⟨r, t, ht⟩ := hf.state
  have hrest : s'.wsteth = s.wsteth ∧ s'.collSurplusPool = s.collSurplusPool := by
    rw [ht]
    exact ⟨rfl, rfl⟩
  rcases hf.sim with ⟨t₁, h1, h2⟩ | ⟨-, hsim⟩
  · have hfirst : Keeps c s { s with sim := t₁ } a := .minted h1 rfl rfl rfl
    exact hfirst.trans (.minted h2 rfl hrest.1 hrest.2)
  · exact .of_eq hsim hrest.1 (by rw [hrest.2])

theorem TroveManager.Shut.keeps {s₁ : System} {status : Status} (hs : clearStake s b = .ok s₁) (h : Shut s₁ s' b status) :
    Keeps c s s' a := by
  rw [(shut_closed hs h).rest]
  exact .of_eq rfl rfl rfl

theorem accountSurplus_keeps {caller account : Address} (h : CollSurplusPool.accountSurplus c caller s account amount = .ok s') :
    Keeps c s s' a := by
  obtain rfl := CollSurplusPool.accountSurplus_ok h
  refine .of_le rfl rfl le_rfl le_rfl ?_
  by_cases ha : a = account
  · simp [ha]
  · simp [ha]

/-! ## The operations -/

section Operations

variable (ha : a ∉ c.contracts) (hne : a ≠ sender)

include ha hne

theorem moveTokens_keeps {x : TroveChange} {SIMChange : ℕ}
    (h : moveTokensAndWSTETHfromAdjustment c s sender x SIMChange = .ok s') : Keeps c s s' a := by
  obtain ⟨s₁, h1, h⟩ := bind_ok.1 h
  have hSIM : Keeps c s s₁ a := by
    unfold moveSIM at h1
    split_ifs at h1
    · exact issueSIM_keeps h1
    · exact burnSIM_keeps hne h1
  refine hSIM.trans ?_
  unfold moveColl at h
  split_ifs at h
  · exact activePoolAddColl_keeps ha h
  · exact sendWSTETH_keeps ha h

theorem openTrove_keeps {maxFee SIMAmount : ℕ} (h : openTrove c env sender s amount maxFee SIMAmount p n = .ok s') :
    Keeps c s s' a := by
  obtain ⟨price, mode, s₁, s₂, s₃, s₄, netDebt, hs⟩ := openTrove_ok h
  obtain ⟨ICR, NICR, -, -, -, hc⟩ := hs.created
  have hcreated : Keeps c s₂ s₃ a := by
    rw [hc.rest]
    exact .of_eq rfl rfl rfl
  exact (transferFromWSTETH_keeps hne hs.received).trans <| (chargeFee_keeps hs.fee).trans <| hcreated.trans <|
    (activePoolAddColl_keeps ha hs.added).trans (issueSIM_keeps hs.issued)

theorem adjust_keeps {args : AdjustArgs} (h : adjust c env sender s b args = .ok s') : Keeps c s s' a := by
  obtain ⟨price, mode, s₁, s₂, s₃, net, hs⟩ := adjust_ok h
  have hedited : Keeps c s₂ s₃ a := by
    rw [hs.edited.rest]
    exact .of_eq rfl rfl rfl
  exact (settlePendingRewards_keeps ha hs.settled).trans <| (chargeFee_keeps hs.fee).trans <| hedited.trans <|
    moveTokens_keeps ha hne hs.moved

theorem closeTrove_keeps (h : BorrowerOperations.closeTrove c env sender s = .ok s') : Keeps c s s' a := by
  obtain ⟨price, s₁, s₂, s₃, s₄, hs⟩ := closeTrove_ok h
  exact (settlePendingRewards_keeps ha hs.settled).trans <| (Shut.keeps hs.unstaked hs.shut).trans <|
    (burnSIM_keeps hne hs.burned).trans (sendWSTETH_keeps ha hs.sent)

theorem claimColl_keeps {caller : Address} (h : CollSurplusPool.claimColl c caller s sender = .ok s') : Keeps c s s' a := by
  obtain ⟨-, t, ht, rfl⟩ := CollSurplusPool.claimColl_ok h
  refine .wsteth ht (fun e => ha (by simp [Config.contracts, e])) rfl rfl ?_
  dsimp only
  rw [Function.update_of_ne hne]

omit hne in
theorem SequenceStep.keeps {user : Address} {single : LiquidationValues} (h : SequenceStep c user v v' single) :
    Keeps c v.s v'.s a := by
  rcases h.state with ⟨hs, -⟩ | ⟨-, hl⟩
  · rw [hs]
    exact .refl _
  · obtain ⟨t, s₁, s₂, s₃, -, -, -, hmoved, hstake, hshut, hsurplus⟩ := hl.steps
    refine (hmoved.keeps ha).trans <| (Shut.keeps hstake hshut).trans ?_
    unfold accountCollSurplus at hsurplus
    split_ifs at hsurplus
    · exact accountSurplus_keeps hsurplus
    · cases hsurplus
      exact .refl _

omit hne in
theorem Sequence.keeps (h : Sequence c v v') : Keeps c v.s v'.s a := by
  induction h with
  | refl => exact .refl _
  | tail _ hstep ih =>
    obtain ⟨user, single, hstep⟩ := hstep
    exact ih.trans (SequenceStep.keeps ha hstep)

omit hne in
theorem offset_keeps {caller : Address} {debt coll : ℕ} (h : StabilityPool.offset c env caller s debt coll = .ok s') :
    Keeps c s s' a := by
  rcases offset_steps h with ⟨-, rfl⟩ | ⟨-, -, issued, pool, t, -, ht, hsent⟩
  · exact .refl s'
  · have hburned : Keeps c s { s with
        activePool := { s.activePool with SIMDebt := s.activePool.SIMDebt - debt }
        stabilityPool := pool
        sim := t } a := .burned ht (fun e => ha (by simp [Config.contracts, e])) rfl rfl rfl
    exact hburned.trans (sendWSTETH_keeps ha hsent)

omit hne in
theorem finishLiquidation_keeps {t : LiquidationTotals} (h : finishLiquidation c env sender s t = .ok s') :
    Keeps c s s' a := by
  obtain ⟨s₁, s₂, s₃, s₄, hs⟩ := finishLiquidation_ok h
  have hred : Keeps c s₁ s₂ a := by
    rcases redistributeDebtAndColl_ok hs.redistributed with ⟨-, rfl⟩ | ⟨-, hred⟩
    · exact .refl _
    · obtain ⟨rw, ew, rd, ed, u, -, -, hu, rfl⟩ := hred.state
      exact .wsteth hu (fun e => ha (by simp [Config.contracts, e])) rfl rfl le_rfl
  have hsurplus : Keeps c s₂ s₃ a := by
    have h3 := hs.surplus
    unfold sendCollSurplus at h3
    split_ifs at h3
    · exact sendWSTETH_keeps ha h3
    · cases h3
      exact .refl _
  have hsnapshot : Keeps c s₃ s₄ a := by
    obtain ⟨-, rfl⟩ := updateSystemSnapshots_ok hs.snapshot
    exact .of_eq rfl rfl rfl
  have hgas : Keeps c s₄ s' a := by
    have h5 := hs.compensation
    unfold sendGasCompensation at h5
    split_ifs at h5
    · exact sendWSTETH_keeps ha h5
    · cases h5
      exact .refl _
  exact (offset_keeps ha hs.offset).trans (hred.trans (hsurplus.trans (hsnapshot.trans hgas)))

omit hne in
theorem liquidation_keeps {totals : ℕ → Bool → Res LiquidationSequence} {price : ℕ} {mode : Bool}
    (h : LiquidationSteps c env sender s totals price mode v s') : Keeps c s s' a := by
  obtain ⟨debt, coll, hseq⟩ := h.sequence
  exact (Sequence.keeps ha hseq).trans (finishLiquidation_keeps ha h.finished)

omit hne in
theorem redeemCollateralFromTrove_keeps {maxSIMamount price : ℕ} {hint : PartialRedemptionHint} {w : SingleRedemptionValues}
    (h : redeemCollateralFromTrove c s b maxSIMamount price hint = .ok (s', w)) : Keeps c s s' a := by
  obtain ⟨-, ⟨-, -, s₁, s₂, hstake, hshut, hclose⟩ | ⟨-, NICR, -, ⟨-, rfl, -⟩ | ⟨-, -, -, hedited⟩⟩⟩ :=
    redeemCollateralFromTrove_ok h
  · obtain ⟨s₃, h3, hclose⟩ := bind_ok.1 hclose
    exact (Shut.keeps hstake hshut).trans <| (accountSurplus_keeps h3).trans (sendWSTETH_keeps ha hclose)
  · exact .refl _
  · rw [hedited.rest]
    exact .of_eq rfl rfl rfl

omit hne in
theorem redeemLoop_keeps {price rounds : ℕ} {hint : PartialRedemptionHint} {t t' : RedemptionTotals} {user : Address}
    (h : redeemLoop c price hint rounds user t = .ok t') : Keeps c t.s t'.s a := by
  refine redeemLoop_rel (R := fun t t' => Keeps c t.s t'.s a) (fun _ => .refl _) .trans (fun hround => ?_) h
  rw [hround.after]
  exact (settlePendingRewards_keeps ha hround.settled).trans (redeemCollateralFromTrove_keeps ha hround.redeemed)

theorem redeemCollateral_keeps {args : RedeemArgs} (h : redeemCollateral c env sender s args = .ok s') : Keeps c s s' a := by
  obtain ⟨price, supply, user, t, hs⟩ := redeemCollateral_ok h
  obtain ⟨fee, s₁, s₂, s₃, s₄, hp⟩ := finishRedemption_ok hs.finish
  have hrate : Keeps c t.s s₁ a := by
    obtain ⟨r, time, hrate⟩ := hp.rate
    rw [hrate]
    exact .of_eq rfl rfl rfl
  have hburned : Keeps c s₂ s₄ a := by
    obtain ⟨u, hu, hs₃⟩ := SIMToken.burn_ok hp.burned
    obtain ⟨-, hs₄⟩ := ActivePool.decreaseSIMDebt_ok hp.cancelled
    rw [hs₄, hs₃]
    exact .burned hu hne rfl rfl rfl
  exact (redeemLoop_keeps ha hs.loop).trans <| hrate.trans <| (sendWSTETH_keeps ha hp.feeSent).trans <|
    hburned.trans (sendWSTETH_keeps ha hp.paid)

omit hne in
theorem sendGain_keeps {account : Address} (h : StabilityPool.sendGain c s account amount = .ok s') : Keeps c s s' a := by
  unfold StabilityPool.sendGain at h
  split_ifs at h
  · cases h
    exact .refl _
  · exact transferWSTETH_keeps (fun e => ha (by simp [Config.contracts, e])) h

theorem provideToSP_keeps (h : StabilityPool.provideToSP c env sender s amount = .ok s') : Keeps c s s' a := by
  obtain ⟨issued, pool, payout, s₁, hs⟩ := StabilityPool.provideToSP_ok h
  obtain ⟨t, ht, hs₁⟩ := SIMToken.sendToPool_ok hs.received
  have hreceived : Keeps c s { s₁ with stabilityPool := pool } a := by
    rw [hs₁]
    exact .sim ht hne rfl rfl rfl
  exact hreceived.trans (sendGain_keeps ha hs.paid)

omit hne in
theorem withdrawFromSP_keeps (h : StabilityPool.withdrawFromSP c env sender s amount = .ok s') : Keeps c s s' a := by
  obtain ⟨ICR, issued, pool, payout, s₁, hs⟩ := StabilityPool.withdrawFromSP_ok h
  have hsent : Keeps c s { s₁ with stabilityPool := pool } a := by
    have h1 := hs.sent
    unfold StabilityPool.sendSIM at h1
    split_ifs at h1
    · cases h1
      exact .of_eq rfl rfl rfl
    · obtain ⟨t, ht, rfl⟩ := SIMToken.returnFromPool_ok h1
      exact .sim ht (fun e => ha (by simp [Config.contracts, e])) rfl rfl rfl
  exact hsent.trans (sendGain_keeps ha hs.paid)

omit hne in
theorem withdrawWSTETHGainToTrove_keeps (h : StabilityPool.withdrawWSTETHGainToTrove c env sender s p n = .ok s') :
    Keeps c s s' a := by
  obtain ⟨issued, -, h⟩ := bind_ok.1 h
  obtain ⟨⟨pool, payout⟩, -, h⟩ := bind_ok.1 h
  obtain ⟨_, -, h⟩ := bind_ok.1 h
  obtain ⟨s₁, h1, h⟩ := bind_ok.1 h
  simp only [moveWSTETHGainToTrove, require_bind] at h
  have hpool : a ≠ c.stabilityPool := fun e => ha (by simp [Config.contracts, e])
  have hstart : Keeps c s { s with stabilityPool := pool } a := .of_eq rfl rfl rfl
  exact hstart.trans <| (transferWSTETH_keeps hpool h1).trans (adjust_keeps ha hpool h.2)

end Operations

/-- **One transaction of somebody else.** -/
theorem exec_intact {tx : Tx c} (ha : a ∉ c.contracts) (hne : a ≠ tx.sender.address) (h : exec c s tx = .ok s') :
    Keeps c s s' a := by
  obtain ⟨env, sender, call⟩ := tx
  unfold exec at h
  cases call with
  | openTrove amount maxFee SIMAmount p n => exact openTrove_keeps ha hne h
  | addColl amount p n =>
    obtain ⟨s₁, h1, h⟩ := bind_ok.1 h
    exact (transferFromWSTETH_keeps hne h1).trans (adjust_keeps ha hne h)
  | withdrawColl w p n => exact adjust_keeps ha hne h
  | withdrawSIM maxFee SIMAmount p n => exact adjust_keeps ha hne h
  | repaySIM SIMAmount p n => exact adjust_keeps ha hne h
  | adjustTrove amount args =>
    obtain ⟨s₁, h1, h⟩ := bind_ok.1 h
    have hreceived : Keeps c s s₁ a := by
      unfold receiveColl at h1
      split_ifs at h1
      · exact transferFromWSTETH_keeps hne h1
      · cases h1
        exact .refl _
    exact hreceived.trans (adjust_keeps ha hne h)
  | closeTrove => exact closeTrove_keeps ha hne h
  | claimCollateral => exact claimColl_keeps ha hne h
  | liquidate borrower =>
    obtain ⟨price, mode, v, hl⟩ := liquidate_ok h
    exact liquidation_keeps ha hl
  | liquidateTroves n =>
    obtain ⟨price, mode, v, hl⟩ := liquidateTroves_ok h
    exact liquidation_keeps ha hl
  | batchLiquidateTroves troveArray =>
    obtain ⟨price, mode, v, hl⟩ := batchLiquidateTroves_ok h
    exact liquidation_keeps ha hl
  | redeemCollateral args => exact redeemCollateral_keeps ha hne h
  | provideToSP amount => exact provideToSP_keeps ha hne h
  | withdrawFromSP amount => exact withdrawFromSP_keeps ha h
  | withdrawWSTETHGainToTrove p n => exact withdrawWSTETHGainToTrove_keeps ha h
  | transferSIM recipient amount =>
    obtain ⟨-, t, ht, rfl⟩ := SIMToken.transfer_ok h
    exact .sim ht hne rfl rfl rfl
  | transferFromSIM src recipient amount =>
    obtain ⟨-, t, ht, rfl⟩ := SIMToken.transferFrom_ok h
    intro htrust
    obtain ⟨hbal, hal⟩ := ERC20.transferFrom_keeps ht fun _ => htrust.sim _ sender.outside
    exact ⟨⟨fun x hx => hal x (htrust.sim x hx), htrust.wsteth⟩, hbal, le_rfl, le_rfl⟩
  | transferWSTETH recipient amount => exact transferWSTETH_keeps hne h
  | transferFromWSTETH src recipient amount =>
    obtain ⟨t, ht, rfl⟩ := transferFromWSTETH_ok h
    intro htrust
    obtain ⟨hbal, hal⟩ := ERC20.transferFrom_keeps ht fun _ => htrust.wsteth _ sender.outside
    exact ⟨⟨htrust.sim, fun x hx => hal x (htrust.wsteth x hx)⟩, le_rfl, hbal, le_rfl⟩
  | approveSIM spender amount =>
    obtain ⟨t, ht, h⟩ := bind_ok.1 h
    cases h
    obtain ⟨hbal, hal⟩ := ERC20.approve_other ht hne
    exact .of_le hal rfl (by rw [hbal]) le_rfl le_rfl
  | approveWSTETH spender amount =>
    obtain ⟨t, ht, h⟩ := bind_ok.1 h
    cases h
    obtain ⟨hbal, hal⟩ := ERC20.approve_other ht hne
    exact .of_le rfl hal le_rfl (by rw [hbal]) le_rfl
  | mintWSTETH amount =>
    obtain ⟨t, ht, h⟩ := bind_ok.1 h
    cases h
    obtain ⟨hle, hal⟩ := ERC20.mint_le ht a
    exact .of_le rfl (by rw [hal]) le_rfl hle le_rfl
  | burnWSTETH amount =>
    obtain ⟨t, ht, h⟩ := bind_ok.1 h
    cases h
    obtain ⟨hbal, hal⟩ := ERC20.burn_other ht hne
    exact .of_le rfl (by rw [hal]) le_rfl (by rw [hbal]) le_rfl

/-! ## Results -/

/-- **An account that sends nothing loses nothing.** From any reachable state, along any transactions of others, whatever the
price: an account whose allowances are only to contracts of the protocol keeps its SIM, its wstETH and its claimable surplus. -/
theorem bystander_keeps (c : Config) (before later : List (Tx c)) (a : Account c)
    (htrust : Trusts c (reached c before) a.address) (hothers : ∀ tx ∈ later, a.address ≠ tx.sender.address) :
    Intact c (reached c before) (reached c (before ++ later)) a.address := by
  have hrun : reached c (before ++ later) = run (exec c) (reached c before) later := List.foldl_append ..
  rw [hrun]
  suffices h : Keeps c (reached c before) (run (exec c) (reached c before) later) a.address from h htrust
  clear hrun
  induction later using List.reverseRecOn with
  | nil => exact .refl _
  | append_singleton later tx ih =>
    have hbefore := ih fun tx htx => hothers tx (List.mem_append_left _ htx)
    rw [run_snoc]
    cases h : exec c (run (exec c) (reached c before) later) tx with
    | ok s' => exact hbefore.trans (exec_intact a.outside (hothers tx (by simp)) h)
    | error e => exact hbefore

/-- Bob pays off Alice's trove, Carol tries to take Alice's SIM, Bob sends her 5 -/
def othersAct : List (Tx exampleConfig) :=
  [atPrice (2000 * 10 ^ 18) bob (.redeemCollateral ⟨1005 * 10 ^ 15, 0, ⟨0, 0, 0⟩, 0, 10 ^ 18⟩),
    atPrice 0 carol (.transferFromSIM 1 3 (10 ^ 18)), atPrice 0 bob (.transferSIM 1 5)]

theorem alice_trusts : Trusts exampleConfig (reached exampleConfig twoTroves) 1 := by
  have hwsteth : (reached exampleConfig twoTroves).wsteth.allowance 1 = Function.update (fun _ => 0) 107 uintMax := by
    with_unfolding_all rfl
  have hsim : (reached exampleConfig twoTroves).sim.allowance 1 = fun _ => 0 := by with_unfolding_all rfl
  refine ⟨fun x _ => by rw [hsim], fun x hx => ?_⟩
  rw [hwsteth, Function.update_of_ne]
  rintro rfl
  exact hx (by decide)

theorem bystander_keeps_alice :
    Intact exampleConfig (reached exampleConfig twoTroves) (reached exampleConfig (twoTroves ++ othersAct)) 1 ∧
      (reached exampleConfig (twoTroves ++ othersAct)).sim.balanceOf 1 = 10 ^ 18 + 5 :=
  ⟨bystander_keeps exampleConfig twoTroves othersAct alice alice_trusts (by decide), by decide +kernel⟩

/-- **A surplus can be claimed at any time.** In every reachable state `claimCollateral` succeeds exactly for the accounts with
a surplus; it pays all of it, once, and touches nobody else's. -/
theorem surplus_claimable (c : Config) (calls : List (Tx c)) (env : Env) (a : Account c) (ha : a.address ≠ 0) :
    let s := reached c calls
    (s.collSurplusPool.balances a.address = 0 → exec c s ⟨env, a, .claimCollateral⟩ =
        .error (.error "CollSurplusPool: No collateral available to claim")) ∧
      (0 < s.collSurplusPool.balances a.address → ∃ s', exec c s ⟨env, a, .claimCollateral⟩ = .ok s' ∧
        s'.wsteth.balanceOf a.address = s.wsteth.balanceOf a.address + s.collSurplusPool.balances a.address ∧
        s'.collSurplusPool.balances a.address = 0 ∧
        ∀ b, b ≠ a.address → s'.collSurplusPool.balances b = s.collSurplusPool.balances b) := by
  intro s
  have h : Balanced c s := reached_balanced calls
  have hsurplus := h.surplus
  have hcovered := h.covered .collSurplusPool
  simp only [gap] at hsurplus hcovered
  have hle := Ledger.le_sum s.collSurplusPool.balances a.address
  have hpool : c.collSurplusPool ≠ 0 := by
    have h := c.distinct
    simp only [List.nodup_cons, List.mem_cons, not_or] at h
    exact Ne.symm h.1.2.2.2.1
  have hne : a.address ≠ c.collSurplusPool := fun e => a.notMem_pools (by simp [Config.pools, e])
  have hcall : exec c s ⟨env, a, .claimCollateral⟩ = CollSurplusPool.claimColl c c.borrowerOperations s a.address := rfl
  refine ⟨fun hzero => ?_, fun hpos => ?_⟩
  · simp only [hcall, CollSurplusPool.claimColl, hzero, require, lt_irrefl, if_true, if_false]
    rfl
  · have hfunds : s.collSurplusPool.balances a.address ≤ s.wsteth.balanceOf c.collSurplusPool := by omega
    obtain ⟨t, ht⟩ := ERC20.transfer_succeeds hpool ha hfunds
    refine ⟨{ s with
      wsteth := t
      collSurplusPool :=
        { WSTETH := s.collSurplusPool.WSTETH - s.collSurplusPool.balances a.address
          balances := Function.update s.collSurplusPool.balances a.address 0 } }, ?_, ?_, ?_, fun b hb => ?_⟩
    · simp only [hcall, CollSurplusPool.claimColl, require_bind, usub_bind, transferWSTETH, ht, ok_bind]
      exact ⟨trivial, hpos, by omega, rfl⟩
    · rw [ERC20.transfer_other ht hne, if_pos rfl]
    · exact Function.update_self _ _ _
    · exact Function.update_of_ne hb _ _

/-- what was left of Alice's collateral -/
theorem surplus_claimable_alice :
    ∃ s', exec exampleConfig (reached exampleConfig (twoTroves ++ othersAct)) (atPrice 0 alice .claimCollateral) = .ok s' ∧
      s'.collSurplusPool.balances 1 = 0 := by
  obtain ⟨s', h, -, hzero, -⟩ := (surplus_claimable exampleConfig (twoTroves ++ othersAct)
    (atPrice 0 alice .claimCollateral).env alice (by decide)).2 (by decide +kernel)
  exact ⟨s', h, hzero⟩

end SimContracts.Protocol
