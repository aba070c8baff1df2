/-
The Stability Pool inside the protocol. Only the depositors' calls and the offset at the end of a liquidation touch it; every
other operation leaves it alone (the ActivePool never sends collateral to it outside an offset). So the pool of a reachable
state of the protocol is a reachable state of the pool's own model, and what is proved of every run of the pool holds there.

Results:
  exec_poolCall  a transaction is at most one call of the Stability Pool, an offset only of the debt it offsets
  reached_pool   the pool of a reachable state is reached by such calls, offsets as the transactions allow them
-/
import SimContracts.Protocol.Batches

namespace SimContracts.Protocol

open Solidity TroveManager BorrowerOperations

variable {c : Config} {env : Env} {s s' : System} {a b sender account : Address} {amount : ℕ} {p n : Address}
  {v v' : LiquidationSequence}

/-! ## What leaves the pool alone -/

theorem sendWSTETH_pool {caller : Address} (hne : account ≠ c.stabilityPool)
    (h : ActivePool.sendWSTETH c caller s account amount = .ok s') : s'.stabilityPool = s.stabilityPool := by
  obtain ⟨-, t, -, hn⟩ := ActivePool.sendWSTETH_ok h
  rw [hn.stabilityPool, if_neg hne]
  rfl

theorem settlePendingRewards_pool (h : settlePendingRewards c s b = .ok s') : s'.stabilityPool = s.stabilityPool := by
  rcases settlePendingRewards_ok h with ⟨-, rfl⟩ | ⟨-, pw, pd, -, -, hmoved⟩
  · rfl
  · obtain ⟨t, -, rfl⟩ := hmoved.state
    rfl

theorem activePoolAddColl_pool (h : activePoolAddColl c s amount = .ok s') : s'.stabilityPool = s.stabilityPool := by
  obtain ⟨s₁, h1, h⟩ := bind_ok.1 h
  obtain ⟨t, -, rfl⟩ := transferWSTETH_ok h1
  obtain rfl := ActivePool.receiveWSTETH_ok h
  rfl

theorem issueSIM_pool {SIMAmount : ℕ} (h : issueSIM c s account SIMAmount amount = .ok s') :
    s'.stabilityPool = s.stabilityPool := by
  obtain ⟨s₁, h1, h⟩ := bind_ok.1 h
  obtain rfl := ActivePool.increaseSIMDebt_ok h1
  obtain ⟨t, -, rfl⟩ := SIMToken.mint_ok h
  rfl

theorem burnSIM_pool (h : burnSIM c s account amount = .ok s') : s'.stabilityPool = s.stabilityPool := by
  obtain ⟨s₁, h1, h⟩ := bind_ok.1 h
  obtain ⟨-, rfl⟩ := ActivePool.decreaseSIMDebt_ok h1
  obtain ⟨t, -, rfl⟩ := SIMToken.burn_ok h
  rfl

theorem chargeFee_pool {charged : Bool} {SIMAmount maxFee netDebt : ℕ}
    (h : chargeFee c env s charged SIMAmount maxFee = .ok (s', netDebt)) : s'.stabilityPool = s.stabilityPool := by
  obtain ⟨fee, hf⟩ := chargeFee_ok h
  obtain ⟨r, t, ht⟩ := hf.state
  rw [ht]

/-- the pool itself only ever adds collateral to a trove -/
theorem moveTokens_pool {x : TroveChange} {SIMChange : ℕ} (hne : account = c.stabilityPool → x.isCollIncrease = true)
    (h : moveTokensAndWSTETHfromAdjustment c s account x SIMChange = .ok s') : s'.stabilityPool = s.stabilityPool := by
  obtain ⟨s₁, h1, h⟩ := bind_ok.1 h
  have hSIM : s₁.stabilityPool = s.stabilityPool := by
    unfold moveSIM at h1
    split_ifs at h1
    · exact issueSIM_pool h1
    · exact burnSIM_pool h1
  rw [← hSIM]
  unfold moveColl at h
  split_ifs at h with hup
  · exact activePoolAddColl_pool h
  · exact sendWSTETH_pool (fun e => hup (hne e)) h

theorem Shut.pool {s₁ : System} {status : Status} (hs : clearStake s b = .ok s₁) (h : Shut s₁ s' b status) :
    s'.stabilityPool = s.stabilityPool := by
  rw [(shut_closed hs h).rest]

/-! ## Borrowers -/

theorem openTrove_pool {maxFee SIMAmount : ℕ} (h : openTrove c env sender s amount maxFee SIMAmount p n = .ok s') :
    s'.stabilityPool = s.stabilityPool := by
  obtain ⟨price, mode, s₁, s₂, s₃, s₄, netDebt, hs⟩ := openTrove_ok h
  obtain ⟨t, -, rfl⟩ := transferFromWSTETH_ok hs.received
  obtain ⟨ICR, NICR, -, -, -, hc⟩ := hs.created
  have hfee := chargeFee_pool hs.fee
  rw [issueSIM_pool hs.issued, activePoolAddColl_pool hs.added, hc.rest]
  exact hfee

theorem adjust_pool {args : AdjustArgs} (hb : b ≠ c.stabilityPool) (h : adjust c env sender s b args = .ok s') :
    s'.stabilityPool = s.stabilityPool := by
  obtain ⟨price, mode, s₁, s₂, s₃, net, hs⟩ := adjust_ok h
  have hgain : sender = c.stabilityPool → (adjustChange c s args net).isCollIncrease = true := by
    intro hsender
    rcases hs.owner with hown | ⟨-, hpos, -⟩
    · exact absurd (hown.symm.trans hsender) hb
    · simp only [adjustChange, getCollChange]
      rw [if_pos (by omega)]
  rw [moveTokens_pool hgain hs.moved, hs.edited.rest]
  exact (chargeFee_pool hs.fee).trans (settlePendingRewards_pool hs.settled)

theorem closeTrove_pool (hne : sender ≠ c.stabilityPool) (h : BorrowerOperations.closeTrove c env sender s = .ok s') :
    s'.stabilityPool = s.stabilityPool := by
  obtain ⟨price, s₁, s₂, s₃, s₄, hs⟩ := closeTrove_ok h
  rw [sendWSTETH_pool hne hs.sent, burnSIM_pool hs.burned, Shut.pool hs.unstaked hs.shut]
  exact settlePendingRewards_pool hs.settled

/-! ## Redemptions -/

theorem redeemCollateralFromTrove_pool {maxSIMamount price : ℕ} {hint : PartialRedemptionHint} {w : SingleRedemptionValues}
    (h : redeemCollateralFromTrove c s b maxSIMamount price hint = .ok (s', w)) : s'.stabilityPool = s.stabilityPool := by
  obtain ⟨-, ⟨-, -, s₁, s₂, hstake, hshut, hclose⟩ | ⟨-, NICR, -, ⟨-, rfl, -⟩ | ⟨-, -, -, hedited⟩⟩⟩ :=
    redeemCollateralFromTrove_ok h
  · obtain ⟨s₃, h3, hclose⟩ := bind_ok.1 hclose
    obtain rfl := CollSurplusPool.accountSurplus_ok h3
    have hshut := Shut.pool hstake hshut
    have hsent := sendWSTETH_pool (Ne.symm c.ne.2.2.2.2.2) hclose
    exact hsent.trans hshut
  · rfl
  · rw [hedited.rest]

theorem redeemLoop_pool {price rounds : ℕ} {hint : PartialRedemptionHint} {t t' : RedemptionTotals} {user : Address}
    (h : redeemLoop c price hint rounds user t = .ok t') : t'.s.stabilityPool = t.s.stabilityPool := by
  refine redeemLoop_rel (R := fun t t' => t'.s.stabilityPool = t.s.stabilityPool) (fun _ => rfl)
    (fun h h' => h'.trans h) (fun hround => ?_) h
  rw [hround.after]
  exact (redeemCollateralFromTrove_pool hround.redeemed).trans (settlePendingRewards_pool hround.settled)

theorem redeemCollateral_pool {args : RedeemArgs} (hne : sender ≠ c.stabilityPool)
    (h : redeemCollateral c env sender s args = .ok s') : s'.stabilityPool = s.stabilityPool := by
  obtain ⟨price, supply, user, t, hs⟩ := redeemCollateral_ok h
  obtain ⟨fee, s₁, s₂, s₃, s₄, hp⟩ := finishRedemption_ok hs.finish
  have hfee : c.wstETHVeDistributor ≠ c.stabilityPool := by
    have := c.wstETHVeDistributor_outside
    simp only [List.mem_cons, not_or] at this
    exact this.2.2.1
  obtain ⟨r, time, hrate⟩ := hp.rate
  obtain ⟨u, -, hburned⟩ := SIMToken.burn_ok hp.burned
  obtain ⟨-, hdebt⟩ := ActivePool.decreaseSIMDebt_ok hp.cancelled
  calc s'.stabilityPool = s₄.stabilityPool := sendWSTETH_pool hne hp.paid
    _ = s₂.stabilityPool := by rw [hdebt, hburned]
    _ = s₁.stabilityPool := sendWSTETH_pool hfee hp.feeSent
    _ = t.s.stabilityPool := by rw [hrate]
    _ = s.stabilityPool := redeemLoop_pool hs.loop

/-! ## The pool's own steps -/

/-- `s'` has the pool of `s`, or that pool after one of its own calls -/
def PoolStep (s s' : System) : Prop :=
  s'.stabilityPool = s.stabilityPool ∨
    ∃ call, SimContracts.StabilityPool.exec s.stabilityPool call = .ok s'.stabilityPool

/-- as `PoolStep`, where an offset is one of `debt` -/
def PoolCall (s s' : System) (debt : ℕ) : Prop :=
  s'.stabilityPool = s.stabilityPool ∨
    ∃ call, SimContracts.StabilityPool.exec s.stabilityPool call = .ok s'.stabilityPool ∧
      ∀ debtToOffset collToAdd issued, call = .offset debtToOffset collToAdd issued → debtToOffset = debt

theorem PoolCall.step {debt : ℕ} (h : PoolCall s s' debt) : PoolStep s s' :=
  h.imp_right fun ⟨call, hcall, _⟩ => ⟨call, hcall⟩

/-- the debt that a liquidation offsets -/
def offsets (env : Env) (s : System) (totals : ℕ → Bool → Res LiquidationSequence) : ℕ :=
  match (do
    let price ← env.fetchPrice
    let recoveryModeAtStart ← checkRecoveryMode s price
    totals price recoveryModeAtStart) with
  | .ok v => v.totals.totalDebtToOffset
  | .error _ => 0

/-- the debt that a transaction offsets, read off the state before it -/
def debtOffset (c : Config) (s : System) (tx : Tx c) : ℕ :=
  match tx.call with
  | .liquidate borrower => offsets tx.env s fun price mode => batchTotals c price s mode [borrower]
  | .liquidateTroves n => offsets tx.env s fun price mode => liquidateTrovesTotals c price s mode n
  | .batchLiquidateTroves troveArray => offsets tx.env s fun price mode => batchTotals c price s mode troveArray
  | _ => 0

/-- collateral that is sent to the pool is added to its tracker -/
theorem sendWSTETH_received {caller : Address} (h : ActivePool.sendWSTETH c caller s c.stabilityPool amount = .ok s') :
    SimContracts.StabilityPool.receiveWSTETH s.stabilityPool amount = .ok s'.stabilityPool := by
  simp only [ActivePool.sendWSTETH, ActivePool.requireCallerIsBOorTroveMorSP, require_bind, usub_bind] at h
  obtain ⟨-, -, h⟩ := h
  obtain ⟨s₁, h1, h⟩ := bind_ok.1 h
  obtain ⟨t, -, rfl⟩ := transferWSTETH_ok h1
  rw [ActivePool.notify, if_neg (Ne.symm c.ne.2.2.2.1), if_pos rfl] at h
  simp only [stabilityPoolReceiveWSTETH, require_bind] at h
  obtain ⟨pool, hpool, h⟩ := bind_ok.1 h.2
  cases h
  exact hpool

/-- the offset of a liquidation is the pool's -/
theorem offset_pool {debt coll : ℕ} (h : StabilityPool.offset c env c.troveManager s debt coll = .ok s') :
    ∃ issued, SimContracts.StabilityPool.offset s.stabilityPool debt coll issued = .ok s'.stabilityPool := by
  rcases offset_steps h with ⟨hskip, rfl⟩ | ⟨hskip, -, issued, pool, t, hpool, -, hsent⟩
  · exact ⟨0, if_pos hskip⟩
  · exact ⟨issued, hpool.offset hskip (sendWSTETH_received hsent)⟩

theorem finishLiquidation_pool {t : LiquidationTotals} (hne : sender ≠ c.stabilityPool)
    (h : finishLiquidation c env sender s t = .ok s') :
    ∃ issued, SimContracts.StabilityPool.offset s.stabilityPool t.totalDebtToOffset t.totalCollToSendToSP issued =
      .ok s'.stabilityPool := by
  obtain ⟨s₁, s₂, s₃, s₄, hs⟩ := finishLiquidation_ok h
  obtain ⟨issued, hoffset⟩ := offset_pool hs.offset
  have hred : s₂.stabilityPool = s₁.stabilityPool := by
    rcases redistributeDebtAndColl_ok hs.redistributed with ⟨-, rfl⟩ | ⟨-, hred⟩
    · rfl
    · obtain ⟨rw, ew, rd, ed, u, -, -, -, rfl⟩ := hred.state
      rfl
  have hsurplus : s₃.stabilityPool = s₂.stabilityPool := by
    have h3 := hs.surplus
    unfold sendCollSurplus at h3
    split_ifs at h3
    · exact sendWSTETH_pool (Ne.symm c.ne.2.2.2.2.2) h3
    · cases h3
      rfl
  have hsnapshot : s₄.stabilityPool = s₃.stabilityPool := by
    obtain ⟨-, rfl⟩ := updateSystemSnapshots_ok hs.snapshot
    rfl
  have hgas : s'.stabilityPool = s₄.stabilityPool := by
    have h5 := hs.compensation
    unfold sendGasCompensation at h5
    split_ifs at h5
    · exact sendWSTETH_pool hne h5
    · cases h5
      rfl
  refine ⟨issued, ?_⟩
  rw [hgas, hsnapshot, hsurplus, hred]
  exact hoffset

/-- both entry points, by the totals their loops return -/
theorem liquidation_pool {totals : ℕ → Bool → Res LiquidationSequence} {price : ℕ} {mode : Bool} {v : LiquidationSequence}
    (hne : sender ≠ c.stabilityPool) (h : LiquidationSteps c env sender s totals price mode v s') :
    PoolCall s s' (offsets env s totals) := by
  obtain ⟨debt, coll, hseq⟩ := h.sequence
  obtain ⟨issued, hoffset⟩ := finishLiquidation_pool hne h.finished
  rw [(sequence_added hseq).2] at hoffset
  have hdebt : offsets env s totals = v.totals.totalDebtToOffset := by
    simp only [offsets, h.fetched, ok_bind, h.recovery, h.counted]
  refine .inr ⟨.offset v.totals.totalDebtToOffset v.totals.totalCollToSendToSP issued, hoffset, fun _ _ _ heq => ?_⟩
  rw [hdebt]
  exact (SimContracts.StabilityPool.Call.offset.inj heq).1.symm

/-! ## Depositors -/

theorem sendGain_pool (h : StabilityPool.sendGain c s account amount = .ok s') : s'.stabilityPool = s.stabilityPool := by
  unfold StabilityPool.sendGain at h
  split_ifs at h
  · cases h
    rfl
  · obtain ⟨t, -, rfl⟩ := transferWSTETH_ok h
    rfl

theorem provideToSP_pool (h : StabilityPool.provideToSP c env sender s amount = .ok s') : PoolCall s s' 0 := by
  obtain ⟨issued, pool, payout, s₁, hs⟩ := StabilityPool.provideToSP_ok h
  refine .inr ⟨.provideToSP sender amount issued, ?_, fun _ _ _ he => by cases he⟩
  rw [SimContracts.StabilityPool.exec, hs.called, sendGain_pool hs.paid]
  rfl

theorem withdrawFromSP_pool (h : StabilityPool.withdrawFromSP c env sender s amount = .ok s') : PoolCall s s' 0 := by
  obtain ⟨ICR, issued, pool, payout, s₁, hs⟩ := StabilityPool.withdrawFromSP_ok h
  refine .inr ⟨.withdrawFromSP sender amount issued ICR, ?_, fun _ _ _ he => by cases he⟩
  rw [SimContracts.StabilityPool.exec, hs.called, sendGain_pool hs.paid]
  rfl

theorem withdrawWSTETHGainToTrove_pool (hne : sender ≠ c.stabilityPool)
    (h : StabilityPool.withdrawWSTETHGainToTrove c env sender s p n = .ok s') : PoolCall s s' 0 := by
  obtain ⟨issued, -, h⟩ := bind_ok.1 h
  obtain ⟨⟨pool, payout⟩, hp, h⟩ := bind_ok.1 h
  obtain ⟨_, -, h⟩ := bind_ok.1 h
  obtain ⟨s₁, h1, h⟩ := bind_ok.1 h
  obtain ⟨t, -, rfl⟩ := transferWSTETH_ok h1
  simp only [moveWSTETHGainToTrove, require_bind] at h
  have hadded := adjust_pool hne h.2
  refine .inr ⟨.withdrawWSTETHGainToTrove sender issued (StabilityPool.statusCode (trove s sender).status), ?_, fun _ _ _ he => by cases he⟩
  rw [SimContracts.StabilityPool.exec, hp, hadded]
  rfl

/-! ## All calls -/

/-- the pool's part of a transaction: at most one call, an offset only of the debt that the transaction offsets -/
theorem exec_poolCall {tx : Tx c} (h : exec c s tx = .ok s') : PoolCall s s' (debtOffset c s tx) := by
  obtain ⟨env, sender, call⟩ := tx
  have hne : sender.address ≠ c.stabilityPool := fun e => sender.notMem_pools (by simp [Config.pools, e])
  unfold exec at h
  cases call with
  | openTrove amount maxFee SIMAmount p n => exact .inl (openTrove_pool h)
  | addColl amount p n =>
    obtain ⟨s₁, h1, h⟩ := bind_ok.1 h
    obtain ⟨t, -, rfl⟩ := transferFromWSTETH_ok h1
    have hadded := adjust_pool hne h
    exact .inl hadded
  | withdrawColl w p n => exact .inl (adjust_pool hne h)
  | withdrawSIM maxFee SIMAmount p n => exact .inl (adjust_pool hne h)
  | repaySIM SIMAmount p n => exact .inl (adjust_pool hne h)
  | adjustTrove amount args =>
    obtain ⟨s₁, h1, h⟩ := bind_ok.1 h
    have hreceived : s₁.stabilityPool = s.stabilityPool := by
      unfold receiveColl at h1
      split_ifs at h1
      · obtain ⟨t, -, rfl⟩ := transferFromWSTETH_ok h1
        rfl
      · cases h1
        rfl
    exact .inl ((adjust_pool hne h).trans hreceived)
  | closeTrove => exact .inl (closeTrove_pool hne h)
  | claimCollateral =>
    obtain ⟨-, t, -, rfl⟩ := CollSurplusPool.claimColl_ok h
    exact .inl rfl
  | liquidate borrower =>
    obtain ⟨price, mode, v, hl⟩ := liquidate_ok h
    exact liquidation_pool hne hl
  | liquidateTroves n =>
    obtain ⟨price, mode, v, hl⟩ := liquidateTroves_ok h
    exact liquidation_pool hne hl
  | batchLiquidateTroves troveArray =>
    obtain ⟨price, mode, v, hl⟩ := batchLiquidateTroves_ok h
    exact liquidation_pool hne hl
  | redeemCollateral args => exact .inl (redeemCollateral_pool hne h)
  | provideToSP amount => exact provideToSP_pool h
  | withdrawFromSP amount => exact withdrawFromSP_pool h
  | withdrawWSTETHGainToTrove p n => exact withdrawWSTETHGainToTrove_pool hne h
  | transferSIM recipient amount =>
    obtain ⟨-, t, -, rfl⟩ := SIMToken.transfer_ok h
    exact .inl rfl
  | transferFromSIM src recipient amount =>
    obtain ⟨-, t, -, rfl⟩ := SIMToken.transferFrom_ok h
    exact .inl rfl
  | transferWSTETH recipient amount =>
    obtain ⟨t, -, rfl⟩ := transferWSTETH_ok h
    exact .inl rfl
  | transferFromWSTETH src recipient amount =>
    obtain ⟨t, -, rfl⟩ := transferFromWSTETH_ok h
    exact .inl rfl
  | approveSIM spender amount | approveWSTETH spender amount | mintWSTETH amount | burnWSTETH amount =>
    obtain ⟨t, -, h⟩ := bind_ok.1 h
    cases h
    exact .inl rfl

/-- **The pool's part of a transaction.** At most one call of the Stability Pool. -/
theorem exec_pool {tx : Tx c} (h : exec c s tx = .ok s') : PoolStep s s' := (exec_poolCall h).step

/-- **The pool inside the protocol runs its own model.** What holds after every run of the pool holds in every reachable
state of the protocol; what the transactions, `P`, allow of the debt they offset holds of the pool's offsets. -/
theorem reached_pool {P : System → Tx c → Prop} {Q : SimContracts.StabilityPool.Pool → SimContracts.StabilityPool.Call → Prop}
    (hother : ∀ s call, (∀ debt coll issued, call ≠ .offset debt coll issued) → Q s call)
    (hoffset : ∀ s tx coll issued, P s tx → Q s.stabilityPool (.offset (debtOffset c s tx) coll issued))
    (calls : List (Tx c)) (hcalls : AlongOk (exec c) P (init c) calls) :
    ∃ poolCalls, (reached c calls).stabilityPool = run SimContracts.StabilityPool.exec SimContracts.StabilityPool.init poolCalls ∧
      Along SimContracts.StabilityPool.exec Q SimContracts.StabilityPool.init poolCalls := by
  refine run_part (exec c) (fun s => s.stabilityPool) (fun s tx s' hP h => ?_) (init c) calls hcalls
  refine (exec_poolCall h).imp_right fun ⟨call, hcall, hdebt⟩ => ⟨call, hcall, ?_⟩
  cases call with
  | offset debt coll issued =>
    obtain rfl := hdebt debt coll issued rfl
    exact hoffset s tx coll issued hP
  | _ => exact hother _ _ fun _ _ _ => nofun

end SimContracts.Protocol
