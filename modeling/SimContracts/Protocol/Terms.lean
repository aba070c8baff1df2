/-
What a borrower operation costs. An account's own collateral is its wstETH, its trove with the rewards applied and the surplus
it can claim; its net SIM is what it holds less what it owes. A borrower operation only moves between these: the collateral
that reaches the trove comes from the wallet, from the depositor's gain or from what lies at `BorrowerOperations`, and the SIM
that is issued or burned is the debt that is recorded, but for the fee.

The fee is charged in normal mode only, on the SIM that is borrowed, between half a percent and five percent, and no more than
the borrower accepted.

Results:
  borrower_terms   collateral, net SIM and fee of every borrower operation from a reachable state
-/
import SimContracts.Protocol.FaceValue

namespace SimContracts.Protocol

open Solidity TroveManager BorrowerOperations

variable {c : Config} {env : Env} {s s' s'' s₁ : System} {a b sender : Address} {amount : ℕ}

/-! ## What an account has -/

/-- the wallet, the trove with its rewards and the claimable surplus -/
def ownColl (s : System) (a : Address) : ℤ :=
  s.wsteth.balanceOf a + settledColl s a + s.collSurplusPool.balances a

/-- the SIM held less the debt with its rewards -/
def netSIM (s : System) (a : Address) : ℤ := s.sim.balanceOf a - settledDebt s a

/-- what lies at `BorrowerOperations` becomes collateral of the next adjustment -/
def lying (c : Config) (s : System) : ℤ := s.wsteth.balanceOf c.borrowerOperations

/-- the part of a fee that an account gets back, as the distributor or the fee receiver -/
def feeShare (c : Config) (a : Address) (fee : ℕ) : ℤ :=
  amountIf a c.simVeDistributor (fee / 2) + amountIf a c.feeReceiver (fee - fee / 2)

/-- what a step adds to an account's collateral, to what lies at `BorrowerOperations` and to the account's net SIM -/
structure Changes (c : Config) (a : Address) (s s' : System) (own lie net : ℤ) : Prop where
  own : ownColl s' a = ownColl s a + own
  lies : lying c s' = lying c s + lie
  net : netSIM s' a = netSIM s a + net

theorem Changes.then {x y z x' y' z' : ℤ} (h : Changes c a s s' x y z) (h' : Changes c a s' s'' x' y' z') :
    Changes c a s s'' (x + x') (y + y') (z + z') :=
  ⟨by rw [h'.own, h.own, add_assoc], by rw [h'.lies, h.lies, add_assoc], by rw [h'.net, h.net, add_assoc]⟩

theorem Changes.settle {x y z x' y' z' : ℤ} (h : Changes c a s s' x y z) (he : x = x' ∧ y = y' ∧ z = z') :
    Changes c a s s' x' y' z' := by
  obtain ⟨rfl, rfl, rfl⟩ := he
  exact h

/-! ## Steps -/

/-- the position stays, the tokens move -/
theorem Changes.tokens {x y z : ℤ} (h : SamePosition s s' a) (hsurplus : s'.collSurplusPool = s.collSurplusPool)
    (hown : (s'.wsteth.balanceOf a : ℤ) = s.wsteth.balanceOf a + x)
    (hlying : (s'.wsteth.balanceOf c.borrowerOperations : ℤ) = s.wsteth.balanceOf c.borrowerOperations + y)
    (hnet : (s'.sim.balanceOf a : ℤ) = s.sim.balanceOf a + z) : Changes c a s s' x y z := by
  refine ⟨?_, hlying, ?_⟩
  · rw [ownColl, ownColl, h.settledColl, hsurplus, hown]
    ring
  · rw [netSIM, netSIM, h.settledDebt, hnet]
    ring

/-- a transfer of wstETH -/
theorem Changes.transfer {t : ERC20} {src dst : Address} (h : s.wsteth.transfer src dst amount = .ok t)
    (hsame : SamePosition s s' a) (hsurplus : s'.collSurplusPool = s.collSurplusPool) (hw : s'.wsteth = t)
    (hs : s'.sim = s.sim) :
    Changes c a s s' (amountIf a dst amount - amountIf a src amount)
      (amountIf c.borrowerOperations dst amount - amountIf c.borrowerOperations src amount) 0 :=
  .tokens hsame hsurplus (hw ▸ transfer_int h a) (hw ▸ transfer_int h _) (by rw [hs, add_zero])

section Outside

variable (ha : a ∉ c.contracts)

include ha

theorem ne_borrowerOperations : a ≠ c.borrowerOperations := fun e => ha (by simp [Config.contracts, e])

theorem ne_activePool : a ≠ c.activePool := fun e => ha (by simp [Config.contracts, e])

/-- collateral comes from the wallet -/
theorem received_changes (h : transferFromWSTETH s c.borrowerOperations a c.borrowerOperations amount = .ok s') :
    Changes c a s s' (-amount) amount 0 := by
  have hframe := transferFromWSTETH_frame h
  obtain ⟨t, ht, rfl⟩ := transferFromWSTETH_ok h
  obtain ⟨t₁, hb, -, ht⟩ := ERC20.transferFrom_ok ht
  have hne := ne_borrowerOperations ha
  refine .tokens (.of_frame hframe) rfl ?_ ?_ (add_zero _).symm
  · rw [transfer_int ht, hb, amountIf_ne hne, amountIf_self, zero_sub]
  · rw [transfer_int ht, hb, amountIf_self, amountIf_ne (Ne.symm hne), sub_zero]

theorem settlePendingRewards_changes (h : settlePendingRewards c s b = .ok s') : Changes c a s s' 0 0 0 := by
  have hsettled := settlePendingRewards_settled h
  obtain ⟨hwalked, hsurplus⟩ := settlePendingRewards_walked h
  have hpools : a ∉ c.pools := fun hmem => ha (c.pools_subset hmem)
  have hposition : settledColl s' a = settledColl s a ∧ settledDebt s' a = settledDebt s a := by
    by_cases hab : a = b
    · subst hab
      rw [settledColl_of_not hsettled.reported, settledDebt_of_not hsettled.reported]
      exact ⟨hsettled.coll, hsettled.debt⟩
    · exact ⟨(hsettled.others a hab).settledColl, (hsettled.others a hab).settledDebt⟩
  refine ⟨?_, ?_, ?_⟩
  · rw [ownColl, ownColl, hposition.1, hsurplus, hwalked.wsteth a hpools, add_zero]
  · rw [lying, lying, hwalked.wsteth _ c.borrowerOperations_notMem, add_zero]
  · rw [netSIM, netSIM, hposition.2, hwalked.sim, add_zero]

theorem activePoolAddColl_changes (h : activePoolAddColl c s amount = .ok s') : Changes c a s s' 0 (-amount) 0 := by
  have hframe := activePoolAddColl_frame h
  obtain ⟨s₁, h1, h⟩ := bind_ok.1 h
  obtain ⟨t, ht, rfl⟩ := transferWSTETH_ok h1
  obtain rfl := ActivePool.receiveWSTETH_ok h
  have hne : c.borrowerOperations ≠ c.activePool := fun e => c.borrowerOperations_notMem (by simp [Config.pools, e])
  refine (Changes.transfer ht (.of_frame hframe) rfl rfl rfl).settle ⟨?_, ?_, rfl⟩
  · rw [amountIf_ne (ne_activePool ha), amountIf_ne (ne_borrowerOperations ha), sub_zero]
  · rw [amountIf_ne hne, amountIf_self, zero_sub]

/-- collateral goes back to the wallet -/
theorem sendWSTETH_changes {caller : Address} (h : ActivePool.sendWSTETH c caller s a amount = .ok s') :
    Changes c a s s' amount 0 0 := by
  have hdefault : a ≠ c.defaultPool := fun e => ha (by simp [Config.contracts, e])
  have hsurplus : a ≠ c.collSurplusPool := fun e => ha (by simp [Config.contracts, e])
  have hne : c.borrowerOperations ≠ c.activePool := fun e => c.borrowerOperations_notMem (by simp [Config.pools, e])
  have hframe := sendWSTETH_frame h hdefault
  obtain ⟨-, t, ht, hn⟩ := ActivePool.sendWSTETH_ok h
  refine (Changes.transfer ht (.of_frame hframe) ?_ hn.wsteth hn.sim).settle ⟨?_, ?_, rfl⟩
  · rw [hn.collSurplusPool, if_neg hsurplus]
    rfl
  · rw [amountIf_self, amountIf_ne (ne_activePool ha), sub_zero]
  · rw [amountIf_ne (Ne.symm (ne_borrowerOperations ha)), amountIf_ne hne, sub_zero]

end Outside

theorem mint_int {t t' : ERC20} {dst : Address} (h : t.mint dst amount = .ok t') (x : Address) :
    (t'.balanceOf x : ℤ) = t.balanceOf x + amountIf x dst amount := by
  obtain ⟨-, -, hb⟩ := ERC20.mint_ok h
  rw [hb]
  by_cases hx : x = dst
  · subst hx
    rw [Function.update_self, amountIf_self, Nat.cast_add]
  · rw [Function.update_of_ne hx, amountIf_ne hx, add_zero]

theorem chargeFee_changes {charged : Bool} {SIMAmount netDebt fee : ℕ}
    (h : FeeCharged c s s' charged SIMAmount netDebt fee) : Changes c a s s' 0 0 (feeShare c a fee) := by
  obtain ⟨r, time, hs'⟩ := h.state
  have hrest : s'.wsteth = s.wsteth ∧ s'.collSurplusPool = s.collSurplusPool := by
    rw [hs']
    exact ⟨rfl, rfl⟩
  have hframe : Frame s s' := ⟨⟨r, time, by rw [hs']⟩, by rw [hs'], by rw [hs']⟩
  refine .tokens (.of_frame hframe) hrest.2 (by rw [hrest.1, add_zero]) (by rw [hrest.1, add_zero]) ?_
  rcases h.sim with ⟨t, h1, h2⟩ | ⟨rfl, hsim⟩
  · rw [mint_int h2, mint_int h1, feeShare, add_assoc]
  · rw [hsim, feeShare, Nat.zero_div, Nat.sub_self, amountIf_zero, amountIf_zero, add_zero, add_zero]

theorem issueSIM_changes {SIMAmount : ℕ} (h : issueSIM c s a SIMAmount amount = .ok s') : Changes c a s s' 0 0 SIMAmount := by
  have hframe := issueSIM_frame h
  obtain ⟨s₁, h1, h⟩ := bind_ok.1 h
  obtain rfl := ActivePool.increaseSIMDebt_ok h1
  obtain ⟨t, ht, rfl⟩ := SIMToken.mint_ok h
  refine .tokens (.of_frame hframe) rfl (add_zero _).symm (add_zero _).symm ?_
  rw [mint_int ht, amountIf_self]

/-- SIM of the account is burned, or none is -/
theorem burnSIM_changes {account : Address} (haccount : account = a ∨ amount = 0) (h : burnSIM c s account amount = .ok s') :
    Changes c a s s' 0 0 (-amount) := by
  have hframe := burnSIM_frame h
  obtain ⟨s₁, h1, h⟩ := bind_ok.1 h
  obtain ⟨-, rfl⟩ := ActivePool.decreaseSIMDebt_ok h1
  obtain ⟨t, ht, rfl⟩ := SIMToken.burn_ok h
  refine .tokens (.of_frame hframe) rfl (add_zero _).symm (add_zero _).symm ?_
  obtain ⟨hle, -, -, hb⟩ := ERC20.burn_ok ht
  rw [hb]
  by_cases hself : a = account
  · subst hself
    rw [Function.update_self, Nat.cast_sub hle, ← sub_eq_add_neg]
  · rw [Function.update_of_ne hself, haccount.resolve_left (Ne.symm hself), Nat.cast_zero, neg_zero, add_zero]

/-! ### The trove -/

/-- a trove without pending rewards gets other amounts -/
theorem Changes.rewrite {coll debt : ℕ} (hno : hasPendingRewards s a = false) (hno' : hasPendingRewards s' a = false)
    (hcoll : (trove s' a).coll = coll) (hdebt : (trove s' a).debt = debt)
    (hrest : s' = { s with troveManager := s'.troveManager, sortedTroves := s'.sortedTroves }) :
    Changes c a s s' (coll - (trove s a).coll) 0 ((trove s a).debt - debt) := by
  have htokens : s'.wsteth = s.wsteth ∧ s'.sim = s.sim ∧ s'.collSurplusPool = s.collSurplusPool := by
    rw [hrest]
    exact ⟨rfl, rfl, rfl⟩
  refine ⟨?_, ?_, ?_⟩
  · rw [ownColl, ownColl, settledColl_of_not hno, settledColl_of_not hno', htokens.1, htokens.2.2, hcoll]
    ring
  · rw [lying, lying, htokens.1, add_zero]
  · rw [netSIM, netSIM, settledDebt_of_not hno, settledDebt_of_not hno', htokens.2.1, hdebt]
    ring

/-- a record that says when the rewards were last applied decides whether some are pending -/
theorem hasPendingRewards_congr (hstatus : (trove s' a).status = (trove s a).status)
    (hsnapshot : s'.troveManager.rewardSnapshots a = s.troveManager.rewardSnapshots a)
    (hL : s'.troveManager.L_WSTETH = s.troveManager.L_WSTETH) : hasPendingRewards s' a = hasPendingRewards s a := by
  rw [hasPendingRewards, hasPendingRewards, hstatus, hsnapshot, hL]

theorem edited_changes {coll debt : ℕ} (hno : hasPendingRewards s a = false) (h : Edited s s' a coll debt) :
    Changes c a s s' (coll - (trove s a).coll) 0 ((trove s a).debt - debt) := by
  obtain ⟨⟨_, -, hself⟩, -⟩ := h.troves
  obtain ⟨stake, -, -, htm⟩ := h.stake
  refine .rewrite hno ?_ (by rw [hself]) (by rw [hself]) h.rest
  rw [← hno]
  exact hasPendingRewards_congr (by rw [hself]) (by rw [htm]) (by rw [htm])

theorem created_changes {coll debt NICR : ℕ} (hnew : (trove s a).status ≠ .active)
    (hidle : (trove s a).coll = 0 ∧ (trove s a).debt = 0) (h : Created s s' a coll debt NICR) :
    Changes c a s s' coll 0 (-debt) := by
  obtain ⟨hcoll, hdebt, -⟩ := h.trove_self hidle
  obtain ⟨stake, -, -, htm⟩ := h.stake
  have hno : hasPendingRewards s a = false := decide_eq_false fun hpending => hnew hpending.1
  have hno' : hasPendingRewards s' a = false := by
    rw [hasPendingRewards, decide_eq_false_iff_not, htm]
    simp [createdManager]
  refine (Changes.rewrite hno hno' hcoll hdebt h.rest).settle ⟨?_, rfl, ?_⟩
  · rw [hidle.1, Nat.cast_zero, sub_zero]
  · rw [hidle.2, Nat.cast_zero, zero_sub]

theorem closed_changes {status : Status} (hno : hasPendingRewards s a = false) (h : Closed s s' a status) :
    Changes c a s s' (-(trove s a).coll) 0 (trove s a).debt := by
  obtain ⟨hcoll, hdebt, hno'⟩ := h.record
  refine (Changes.rewrite hno hno' hcoll hdebt h.rest).settle ⟨?_, rfl, ?_⟩
  · rw [Nat.cast_zero, zero_sub]
  · rw [Nat.cast_zero, sub_zero]

/-! ## Operations -/

/-- the fee on `amount` at a total ratio of `t`: none in recovery mode -/
def FeeTerms (t amount maxFee fee : ℕ) : Prop :=
  t < CCR ∧ fee = 0 ∨ CCR ≤ t ∧ BORROWING_FEE_FLOOR * amount / DECIMAL_PRECISION ≤ fee ∧
    fee ≤ MAX_BORROWING_FEE * amount / DECIMAL_PRECISION ∧ fee * DECIMAL_PRECISION / amount ≤ maxFee

theorem triggerBorrowingFee_terms {maxFee fee : ℕ} (h : triggerBorrowingFee c env s amount maxFee = .ok (s', fee)) :
    BORROWING_FEE_FLOOR * amount / DECIMAL_PRECISION ≤ fee ∧ fee ≤ MAX_BORROWING_FEE * amount / DECIMAL_PRECISION ∧
      fee * DECIMAL_PRECISION / amount ≤ maxFee := by
  obtain ⟨s₁, -, h⟩ := bind_ok.1 h
  obtain ⟨fee', hfee, h⟩ := bind_ok.1 h
  obtain ⟨⟨⟩, haccepts, h⟩ := bind_ok.1 h
  obtain ⟨s₂, -, h⟩ := bind_ok.1 h
  obtain ⟨-, -, h⟩ := bind_ok.1 h
  obtain ⟨s₃, -, h⟩ := bind_ok.1 h
  cases h
  simp only [getBorrowingFee, calcBorrowingRate, uadd_bind, umul_bind, bind_assoc, pure_bind, udiv_ok] at hfee
  obtain ⟨-, -, -, rfl⟩ := hfee
  simp only [requireUserAcceptsFee, umul_bind, udiv_bind, require_ok] at haccepts
  obtain ⟨-, -, haccepted⟩ := haccepts
  refine ⟨?_, Nat.div_le_div_right (Nat.mul_le_mul_right _ (min_le_right _ _)), haccepted⟩
  exact Nat.div_le_div_right (Nat.mul_le_mul_right _ (le_min (Nat.le_add_right _ _) (by decide)))

/-- a fee that is charged in normal mode on a debt increase -/
theorem chargeFee_terms {increase mode : Bool} {t maxFee netDebt : ℕ} (hmode : mode = decide (t < CCR))
    (h : chargeFee c env s (increase && !mode) amount maxFee = .ok (s', netDebt)) :
    ∃ fee, FeeCharged c s s' (increase && !mode) amount netDebt fee ∧
      FeeTerms t (if increase then amount else 0) (if increase then maxFee else 0) fee := by
  obtain ⟨fee, hfee⟩ := chargeFee_ok h
  refine ⟨fee, hfee, ?_⟩
  by_cases ht : t < CCR
  · exact .inl ⟨ht, hfee.free (by simp [hmode, ht])⟩
  refine .inr ⟨not_lt.1 ht, ?_⟩
  cases increase with
  | false => simp [hfee.free rfl]
  | true =>
    have hcharged : (true && !mode) = true := by simp [hmode, ht]
    rw [hcharged, chargeFee, if_pos rfl] at h
    obtain ⟨⟨s₂, fee'⟩, htrigger, h⟩ := bind_ok.1 h
    simp only [uadd_bind, pure_ok, Prod.mk.injEq] at h
    have heq : fee = fee' := by
      have := hfee.netDebt
      omega
    rw [heq]
    exact triggerBorrowingFee_terms htrigger

/-- what an operation costs: the fee, less the part of it that the borrower gets back -/
def Charged (c : Config) (env : Env) (s s' : System) (a : Address) (own lie : ℤ) (amount maxFee : ℕ) : Prop :=
  ∃ price t fee, env.fetchPrice = .ok price ∧ getTCR s price = .ok t ∧ FeeTerms t amount maxFee fee ∧
    Changes c a s s' own lie (feeShare c a fee - fee)

/-- the totals of the system are read after a step that leaves them alone -/
theorem Charged.after {x y x' y' : ℤ} {maxFee : ℕ} (h : Changes c a s s₁ x y 0) (hsame : SameTotals s s₁)
    (h' : Charged c env s₁ s' a x' y' amount maxFee) : Charged c env s s' a (x + x') (y + y') amount maxFee := by
  obtain ⟨price, t, fee, hprice, ht, hterms, hchanges⟩ := h'
  exact ⟨price, t, fee, hprice, hsame.getTCR.1 ht, hterms, (h.then hchanges).settle ⟨rfl, rfl, zero_add _⟩⟩

theorem openTrove_charged {maxFee SIMAmount : ℕ} {p n : Address} (hreg : Registry s) (ha : a ∉ c.contracts)
    (h : openTrove c env a s amount maxFee SIMAmount p n = .ok s') : Charged c env s s' a 0 0 SIMAmount maxFee := by
  obtain ⟨price, mode, s₁, s₂, s₃, s₄, netDebt, hs⟩ := openTrove_ok h
  obtain ⟨ICR, NICR, -, -, -, hc⟩ := hs.created
  obtain ⟨t, ht, hmode⟩ := checkRecoveryMode_ok hs.mode
  have hreceived : SameTotals s s₁ := by
    obtain ⟨u, -, rfl⟩ := transferFromWSTETH_ok hs.received
    exact ⟨rfl, rfl⟩
  have hcharged : chargeFee c env s₁ (true && !mode) SIMAmount maxFee = .ok (s₂, netDebt) := hs.fee
  obtain ⟨fee, hfee, hterms⟩ := chargeFee_terms hmode hcharged
  -- the record of an account without a trove is empty
  have hstart := (SamePosition.of_frame (a := a) (transferFromWSTETH_frame hs.received)).fields
  have hpaid := (SamePosition.of_frame (a := a) (chargeFee_frame hs.fee)).fields
  have hnew : (trove s₂ a).status ≠ .active := hpaid.2.2.2 ▸ hs.notActive
  obtain ⟨hcoll, hdebt, -⟩ := hreg.idle a (hstart.2.2.2 ▸ hs.notActive)
  have hidle : (trove s₂ a).coll = 0 ∧ (trove s₂ a).debt = 0 :=
    ⟨hpaid.1.trans (hstart.1.trans hcoll), hpaid.2.1.trans (hstart.2.1.trans hdebt)⟩
  have hcreated := created_changes (c := c) hnew hidle hc
  refine ⟨price, t, fee, hs.fetched, hreceived.getTCR.1 ht, hterms, ?_⟩
  refine ((((received_changes ha hs.received).then (chargeFee_changes hfee)).then hcreated).then
    (activePoolAddColl_changes ha hs.added)).then (issueSIM_changes hs.issued) |>.settle ⟨by ring, by ring, ?_⟩
  rw [hfee.netDebt, Nat.cast_add]
  ring

/-- an adjustment by the owner, or by the Stability Pool with the owner's gain: what lies at `BorrowerOperations` is added -/
theorem adjust_charged {args : AdjustArgs} (ha : a ∉ c.contracts) (hsender : sender = a ∨ sender = c.stabilityPool)
    (h : adjust c env sender s a args = .ok s') :
    Charged c env s s' a (lying c s) (-lying c s) (if args.isDebtIncrease then args.SIMChange else 0)
      (if args.isDebtIncrease then args.maxFeePercentage else 0) := by
  obtain ⟨price, mode, s₁, s₂, s₃, net, hs⟩ := adjust_ok h
  obtain ⟨t, ht, hmode⟩ := checkRecoveryMode_ok hs.mode
  obtain ⟨fee, hfee, hterms⟩ := chargeFee_terms hmode hs.fee
  obtain ⟨s₄, hSIM, hColl⟩ := bind_ok.1 hs.moved
  have hpool : a ≠ c.stabilityPool := fun e => ha (by simp [Config.contracts, e])
  have howner : sender = a ∨ 0 < s.wsteth.balanceOf c.borrowerOperations ∧ args.SIMChange = 0 := by
    rcases hs.owner with ho | ⟨-, hgain⟩
    · exact .inl ho
    · exact .inr hgain
  have hno : hasPendingRewards s₂ a = false :=
    (SamePosition.of_frame (chargeFee_frame hs.fee)).hasPendingRewards.trans (settlePendingRewards_settled hs.settled).reported
  have hedited := edited_changes (c := c) hno hs.edited
  have hmovedSIM : Changes c a s₃ s₄ 0 0
      ((adjustChange c s args net).newDebt (trove s₂ a) - (trove s₂ a).debt - fee) := by
    unfold moveSIM at hSIM
    rw [adjustChange_newDebt]
    cases hup : args.isDebtIncrease with
    | true =>
      rw [if_pos (by exact hup)] at hSIM
      have hpos : 0 < args.SIMChange := by
        have hinc := hs.increase
        simp only [requireValidDebtIncrease, hup, if_true] at hinc
        obtain ⟨_, -, hinc⟩ := bind_ok.1 hinc
        rwa [requireNonZeroDebtChange, require_ok] at hinc
      obtain rfl : sender = a := howner.resolve_right fun hgain => by omega
      refine (issueSIM_changes hSIM).settle ⟨rfl, rfl, ?_⟩
      rw [if_pos rfl, hfee.netDebt]
      push_cast
      ring
    | false =>
      rw [if_neg (by simp [adjustChange, hup])] at hSIM
      have hle := hs.decrease hup
      have hfree := hfee.free (by simp [hup])
      have hnet : net = args.SIMChange := by rw [hfee.netDebt, hfree, Nat.add_zero]
      refine (burnSIM_changes (howner.imp_right And.right) hSIM).settle ⟨rfl, rfl, ?_⟩
      rw [if_neg (by simp), hfree]
      omega
  have hmovedColl : Changes c a s₄ s' ((trove s₂ a).coll - (adjustChange c s args net).newColl (trove s₂ a) + lying c s)
      (-lying c s) 0 := by
    unfold moveColl at hColl
    by_cases hbal : s.wsteth.balanceOf c.borrowerOperations = 0
    · obtain rfl : sender = a := howner.resolve_right fun hgain => absurd hbal hgain.1.ne'
      have hchange : adjustChange c s args net = ⟨args.collWithdrawal, false, net, args.isDebtIncrease⟩ := by
        simp [adjustChange, getCollChange, hbal]
      have hle := hs.withdrawal
      rw [hchange] at hColl ⊢
      refine (sendWSTETH_changes ha hColl).settle ⟨?_, ?_, rfl⟩
      · dsimp only [TroveChange.newColl, after]
        rw [lying, hbal, if_neg (by simp)]
        omega
      · rw [lying, hbal, Nat.cast_zero, neg_zero]
    · have hchange : adjustChange c s args net = ⟨s.wsteth.balanceOf c.borrowerOperations, true, net, args.isDebtIncrease⟩ := by
        simp [adjustChange, getCollChange, hbal]
      rw [hchange] at hColl ⊢
      refine (activePoolAddColl_changes ha hColl).settle ⟨?_, rfl, rfl⟩
      dsimp only [TroveChange.newColl, after]
      rw [lying, if_pos rfl, Nat.cast_add]
      ring
  refine ⟨price, t, fee, hs.fetched, ht, hterms, ?_⟩
  exact ((((settlePendingRewards_changes ha hs.settled).then (chargeFee_changes hfee)).then hedited).then
    hmovedSIM).then hmovedColl |>.settle ⟨by ring, by ring, by ring⟩

theorem closeTrove_charged (ha : a ∉ c.contracts) (h : BorrowerOperations.closeTrove c env a s = .ok s') :
    Charged c env s s' a 0 0 0 0 := by
  obtain ⟨price, s₁, s₂, s₃, s₄, hs⟩ := closeTrove_ok h
  obtain ⟨t, ht, hmode⟩ := checkRecoveryMode_ok hs.mode
  have hno := (settlePendingRewards_settled hs.settled).reported
  have hclosed := closed_changes (c := c) hno (shut_closed hs.unstaked hs.shut)
  have hnormal : CCR ≤ t := not_lt.1 (decide_eq_false_iff_not.1 hmode.symm)
  refine ⟨price, t, 0, hs.fetched, ht, .inr ⟨hnormal, by simp⟩, ?_⟩
  refine (((settlePendingRewards_changes ha hs.settled).then hclosed).then (burnSIM_changes (.inl rfl) hs.burned)).then
    (sendWSTETH_changes ha hs.sent) |>.settle ⟨by ring, by ring, ?_⟩
  simp [feeShare, amountIf_zero]

/-! ## Main result -/

/-- the SIM that a call borrows, and the fee that its sender accepts -/
def borrowed : Call → ℕ × ℕ
  | .openTrove _ maxFeePercentage SIMAmount _ _ => (SIMAmount, maxFeePercentage)
  | .withdrawSIM maxFeePercentage SIMAmount _ _ => (SIMAmount, maxFeePercentage)
  | .adjustTrove _ args => if args.isDebtIncrease then (args.SIMChange, args.maxFeePercentage) else (0, 0)
  | _ => (0, 0)

/-- the depositor's gain that a call moves to the sender's trove -/
def movedGain (env : Env) (s : System) (a : Address) : Call → ℕ
  | .withdrawWSTETHGainToTrove _ _ => gainToTrove env s a
  | _ => 0

/-- collateral and net SIM of a borrower after an operation: nothing is lost but the fee -/
structure Bargain (c : Config) (s s' : System) (a : Address) (gain fee : ℕ) : Prop where
  own : ownColl s' a = ownColl s a + gain + (lying c s - lying c s')
  lies : lying c s' ≤ lying c s
  net : netSIM s' a + fee = netSIM s a + feeShare c a fee

theorem Charged.bargain {own lie : ℤ} {maxFee gain : ℕ} (h : Charged c env s s' a own lie amount maxFee)
    (hlie : lie ≤ 0) (hsum : own + lie = gain) :
    ∃ price t fee, env.fetchPrice = .ok price ∧ getTCR s price = .ok t ∧ FeeTerms t amount maxFee fee ∧
      Bargain c s s' a gain fee := by
  obtain ⟨price, t, fee, hprice, ht, hterms, hchanges⟩ := h
  refine ⟨price, t, fee, hprice, ht, hterms, ?_, ?_, ?_⟩
  · rw [hchanges.own, hchanges.lies, ← hsum]
    ring
  · rw [hchanges.lies]
    exact add_le_of_nonpos_right hlie
  · rw [hchanges.net]
    ring

theorem lying_nonneg (c : Config) (s : System) : 0 ≤ lying c s := Int.natCast_nonneg _

/-- an adjustment after `amount` of collateral came from the wallet -/
theorem received_adjust_charged {args : AdjustArgs} (ha : a ∉ c.contracts)
    (h : transferFromWSTETH s c.borrowerOperations a c.borrowerOperations amount = .ok s₁)
    (h' : adjust c env a s₁ a args = .ok s') :
    Charged c env s s' a (lying c s) (-lying c s) (if args.isDebtIncrease then args.SIMChange else 0)
      (if args.isDebtIncrease then args.maxFeePercentage else 0) := by
  have hreceived := received_changes ha h
  have hlies := hreceived.lies
  have hsame : SameTotals s s₁ := by
    obtain ⟨u, -, rfl⟩ := transferFromWSTETH_ok h
    exact ⟨rfl, rfl⟩
  have hcharged := (adjust_charged ha (.inl rfl) h').after hreceived hsame
  rw [hlies, neg_add_cancel_comm_assoc] at hcharged
  convert hcharged using 1
  ring

/-- **The terms of a borrower operation.** From every reachable state, whatever the operation and its hints, the borrower has
afterwards all the collateral it had, with what lay at `BorrowerOperations` and the gain it moved; its net SIM falls by the fee
alone, which is zero in recovery mode and within its bounds and the accepted maximum in normal mode. -/
theorem borrower_terms (c : Config) (calls : List (Tx c)) (tx : Tx c) (s' : System)
    (hop : isBorrowerOperation tx.call = true) (h : exec c (reached c calls) tx = .ok s') :
    ∃ price t fee, tx.env.fetchPrice = .ok price ∧ getTCR (reached c calls) price = .ok t ∧
      FeeTerms t (borrowed tx.call).1 (borrowed tx.call).2 fee ∧
      Bargain c (reached c calls) s' tx.sender.address (movedGain tx.env (reached c calls) tx.sender.address tx.call) fee := by
  have hreg := reached_registry calls
  generalize reached c calls = s at *
  obtain ⟨env, sender, call⟩ := tx
  have ha := sender.outside
  have hlie : -lying c s ≤ 0 := neg_nonpos.2 (lying_nonneg c s)
  unfold exec at h
  cases call with
  | openTrove amount maxFee SIMAmount p n => exact (openTrove_charged hreg ha h).bargain le_rfl rfl
  | addColl amount p n =>
    obtain ⟨s₁, h1, h⟩ := bind_ok.1 h
    exact (received_adjust_charged ha h1 h).bargain hlie (add_neg_cancel _)
  | withdrawColl w p n => exact (adjust_charged ha (.inl rfl) h).bargain hlie (add_neg_cancel _)
  | withdrawSIM maxFee SIMAmount p n => exact (adjust_charged ha (.inl rfl) h).bargain hlie (add_neg_cancel _)
  | repaySIM SIMAmount p n => exact (adjust_charged ha (.inl rfl) h).bargain hlie (add_neg_cancel _)
  | adjustTrove amount args =>
    obtain ⟨s₁, h1, h⟩ := bind_ok.1 h
    have hcharged : Charged c env s s' sender.address (lying c s) (-lying c s)
        (if args.isDebtIncrease then args.SIMChange else 0) (if args.isDebtIncrease then args.maxFeePercentage else 0) := by
      unfold receiveColl at h1
      split_ifs at h1
      · exact received_adjust_charged ha h1 h
      · cases h1
        exact adjust_charged ha (.inl rfl) h
    have hborrowed : borrowed (.adjustTrove amount args) =
        (if args.isDebtIncrease then args.SIMChange else 0, if args.isDebtIncrease then args.maxFeePercentage else 0) := by
      cases hup : args.isDebtIncrease <;> simp [borrowed, hup]
    dsimp only
    rw [hborrowed]
    exact hcharged.bargain hlie (add_neg_cancel _)
  | closeTrove => exact (closeTrove_charged ha h).bargain le_rfl rfl
  | withdrawWSTETHGainToTrove p n =>
    obtain ⟨pool, u, s₁, -, -, hu, rfl, h⟩ := withdrawWSTETHGainToTrove_ok h
    have hpool : c.borrowerOperations ≠ c.stabilityPool := fun e => c.borrowerOperations_notMem (by simp [Config.pools, e])
    have hsame : SamePosition s { s with stabilityPool := pool, wsteth := u } sender.address := .of_frame (.of_eq rfl rfl rfl)
    have hmoved : Changes c sender.address s { s with stabilityPool := pool, wsteth := u } 0
        (gainToTrove env s sender.address) 0 := by
      refine (Changes.transfer hu hsame rfl rfl rfl).settle ⟨?_, ?_, rfl⟩
      · rw [amountIf_ne (ne_borrowerOperations ha), amountIf_ne fun e => ha (by simp [Config.contracts, e]), sub_zero]
      · rw [amountIf_self, amountIf_ne hpool, sub_zero]
    have hlies := hmoved.lies
    have hcharged := (adjust_charged ha (.inr rfl) h).after hmoved ⟨rfl, rfl⟩
    rw [hlies] at hcharged
    refine hcharged.bargain ?_ ?_
    · rw [neg_add, add_left_comm, add_neg_cancel, add_zero]
      exact hlie
    · dsimp only [movedGain]
      ring
  | _ => cases hop

theorem borrower_terms_bob :
    ∃ s', exec exampleConfig (reached exampleConfig twoTroves) bobBorrows = .ok s' ∧
      ∃ price t fee, bobBorrows.env.fetchPrice = .ok price ∧ getTCR (reached exampleConfig twoTroves) price = .ok t ∧
        FeeTerms t (borrowed bobBorrows.call).1 (borrowed bobBorrows.call).2 fee ∧
        Bargain exampleConfig (reached exampleConfig twoTroves) s' 2
          (movedGain bobBorrows.env (reached exampleConfig twoTroves) 2 bobBorrows.call) fee := by
  obtain ⟨s', hs'⟩ : ∃ s', exec exampleConfig (reached exampleConfig twoTroves) bobBorrows = .ok s' :=
    Res.failure_none (by decide +kernel)
  exact ⟨s', hs', borrower_terms exampleConfig twoTroves bobBorrows s' rfl hs'⟩

end SimContracts.Protocol
