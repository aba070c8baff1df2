/-
What one transaction does to the troves, their stakes, their rewards and the list.

Every transaction is a sequence of a few kinds of moves (`Move`): rewards are applied to one trove, a trove is created,
changed, closed or liquidated, a redistribution raises the per-unit sums, the snapshots of the totals are taken; all the
rest moves tokens and leaves these records alone (`Frame`). An invariant of the records is proved once per kind of move.

A move that sets a stake, or redistributes, does so for an amount that can be read off the state before the transaction
(`plan`): the trove that is opened, adjusted or redeemed in part with its new collateral, and the debt that is
redistributed.
-/
import SimContracts.Protocol.Steps
import SimContracts.SortedTroves.Chain
import SimContracts.StabilityPool.Steps

namespace SimContracts.Protocol

open Solidity TroveManager BorrowerOperations

variable {c : Config} {env : Env} {s s' s'' s₀ : System} {a b : Address}

/-! ## Moves -/

/-- an offset that is not skipped: the pool's books, the debt cancelled, the SIM burned, then the collateral sent -/
theorem offset_steps {caller : Address} {debt coll : ℕ} (h : StabilityPool.offset c env caller s debt coll = .ok s') :
    (s.stabilityPool.totalSIMDeposits = 0 ∨ debt = 0) ∧ s' = s ∨
    ¬ (s.stabilityPool.totalSIMDeposits = 0 ∨ debt = 0) ∧ debt ≤ s.activePool.SIMDebt ∧
      ∃ issued pool t, SimContracts.StabilityPool.Cancels s.stabilityPool pool debt coll issued ∧
        s.sim.burn c.stabilityPool debt = .ok t ∧
        ActivePool.sendWSTETH c c.stabilityPool { s with
          activePool := { s.activePool with SIMDebt := s.activePool.SIMDebt - debt }
          stabilityPool := pool
          sim := t } c.stabilityPool coll = .ok s' := by
  simp only [StabilityPool.offset, require_bind] at h
  obtain ⟨-, h⟩ := h
  split_ifs at h with hskip
  · cases h
    exact .inl ⟨hskip, rfl⟩
  · obtain ⟨issued, -, h⟩ := bind_ok.1 h
    obtain ⟨pool₁, hp₁, h⟩ := bind_ok.1 h
    obtain ⟨⟨gain, loss, pool₂⟩, hp₂, h⟩ := bind_ok.1 h
    obtain ⟨pool₃, hp₃, h⟩ := bind_ok.1 h
    obtain ⟨s₁, h1, h⟩ := bind_ok.1 h
    obtain ⟨pool, hp, h⟩ := bind_ok.1 h
    obtain ⟨s₂, h2, h⟩ := bind_ok.1 h
    obtain ⟨hle, rfl⟩ := ActivePool.decreaseSIMDebt_ok h1
    obtain ⟨t, ht, rfl⟩ := SIMToken.burn_ok h2
    exact .inr ⟨hskip, hle, issued, pool, t, ⟨pool₁, gain, loss, pool₂, pool₃, hp₁, hp₂, hp₃, hp⟩, ht, h⟩

/-- the records of the troves are left alone -/
structure Frame (s s' : System) : Prop where
  troveManager : ∃ r t, s'.troveManager = { s.troveManager with baseRate := r, lastFeeOperationTime := t }
  sortedTroves : s'.sortedTroves = s.sortedTroves
  defaultPool : s'.defaultPool = s.defaultPool

theorem Frame.refl (s : System) : Frame s s := ⟨⟨_, _, rfl⟩, rfl, rfl⟩

theorem Frame.trans (h : Frame s s') (h' : Frame s' s'') : Frame s s'' := by
  obtain ⟨r, t, hr⟩ := h.troveManager
  obtain ⟨r', t', hr'⟩ := h'.troveManager
  refine ⟨⟨r', t', ?_⟩, h'.sortedTroves.trans h.sortedTroves, h'.defaultPool.trans h.defaultPool⟩
  rw [hr', hr]

/-- the records without a trove: its stake is gone, and the last owner takes its place -/
def closedManager (tm : TroveManager) (b : Address) (status : Status) : TroveManager :=
  let closed := Function.update tm.Troves b
    { debt := 0, coll := 0, stake := 0, status, arrayIndex := (tm.Troves b).arrayIndex }
  let last := tm.TroveOwners.getD (tm.TroveOwners.length - 1) 0
  { tm with
    Troves := Function.update closed last { closed last with arrayIndex := (tm.Troves b).arrayIndex }
    totalStakes := tm.totalStakes - (tm.Troves b).stake
    rewardSnapshots := Function.update tm.rewardSnapshots b ⟨0, 0⟩
    TroveOwners := (tm.TroveOwners.set (tm.Troves b).arrayIndex last).dropLast }

/-- a closed trove, with its node out of the list -/
structure Closed (s s' : System) (b : Address) (status : Status) : Prop where
  stake_le : (trove s b).stake ≤ s.troveManager.totalStakes
  length : 1 < s.troveManager.TroveOwners.length
  index : (trove s b).arrayIndex ≤ s.troveManager.TroveOwners.length - 1
  closedStatus : status ≠ .nonExistent ∧ status ≠ .active
  troveManager : s'.troveManager = closedManager s.troveManager b status
  list : SortedTroves.remove s.sortedTroves b = .ok s'.sortedTroves
  size : 1 < s.sortedTroves.size
  rest : s' = { s with troveManager := s'.troveManager, sortedTroves := s'.sortedTroves }

theorem shut_closed {s₁ : System} {status : Status} (h : clearStake s b = .ok s₁) (h' : Shut s₁ s' b status) :
    Closed s s' b status := by
  obtain ⟨hle, rfl⟩ := clearStake_ok h
  have hindex : (trove { s with troveManager := stakedManager s.troveManager b 0 } b).arrayIndex =
      (trove s b).arrayIndex := by
    simp [trove, stakedManager]
  refine ⟨hle, h'.length, hindex ▸ h'.index, h'.closedStatus, ?_, h'.list, h'.size, h'.rest⟩
  rw [h'.troveManager]
  simp only [closedManager, stakedManager, trove, Function.update_self, Function.update_idem, Nat.add_zero]

/-- moving rewards between the pools does not touch the records -/
theorem TroveManager.Moved.same {SIM WSTETH : ℕ} (h : Moved c s s' SIM WSTETH) :
    s'.troveManager = s.troveManager ∧ s'.sortedTroves = s.sortedTroves := by
  obtain ⟨t, -, rfl⟩ := h.state
  exact ⟨rfl, rfl⟩

/-- a trove's collateral with the rewards that would be applied to it -/
def settledColl (s : System) (a : Address) : ℕ :=
  (trove s a).coll +
    if hasPendingRewards s a then
      (trove s a).stake * (s.troveManager.L_WSTETH - (s.troveManager.rewardSnapshots a).WSTETH) / DECIMAL_PRECISION
    else 0

/-- a trove's debt with the rewards that would be applied to it -/
def settledDebt (s : System) (a : Address) : ℕ :=
  (trove s a).debt +
    if hasPendingRewards s a then
      (trove s a).stake * (s.troveManager.L_SIMDebt - (s.troveManager.rewardSnapshots a).SIMDebt) / DECIMAL_PRECISION
    else 0

/-- a stake that a transaction sets, by the trove and its new collateral, and the debt it redistributes -/
structure Plan where
  stake : Option (Address × ℕ)
  redistributed : ℕ

/-- trove `b` with the rewards it had at the start, nothing else of what its stake depends on having changed -/
structure Arrived (s₀ s : System) (b : Address) : Prop where
  L_WSTETH : s.troveManager.L_WSTETH = s₀.troveManager.L_WSTETH
  L_SIMDebt : s.troveManager.L_SIMDebt = s₀.troveManager.L_SIMDebt
  totalStakesSnapshot : s.troveManager.totalStakesSnapshot = s₀.troveManager.totalStakesSnapshot
  totalCollateralSnapshot : s.troveManager.totalCollateralSnapshot = s₀.troveManager.totalCollateralSnapshot
  snapshot : s.troveManager.rewardSnapshots b =
    if hasPendingRewards s₀ b then ⟨s₀.troveManager.L_WSTETH, s₀.troveManager.L_SIMDebt⟩
    else s₀.troveManager.rewardSnapshots b
  stake : (trove s b).stake = (trove s₀ b).stake
  status : (trove s b).status = (trove s₀ b).status

/-- one move of a transaction that started in `s₀` -/
inductive Move (c : Config) (s₀ : System) (plan : Plan) : System → System → Prop
  | frame {s s' : System} (h : Frame s s') : Move c s₀ plan s s'
  | settle {s s' : System} (b : Address) (pw pd : ℕ) (hhas : hasPendingRewards s b = true)
      (hpw : getPendingWSTETHReward s b = .ok pw) (hpd : getPendingSIMDebtReward s b = .ok pd)
      (h : Moved c { s with troveManager := settledManager s.troveManager b pw pd } s' pd pw) : Move c s₀ plan s s'
  | edit {s s' : System} (b : Address) (coll debt : ℕ) (hplan : plan.stake = some (b, coll)) (harrived : Arrived s₀ s b)
      (hdebt : MIN_NET_DEBT ≤ debt ∨ (trove s b).debt ≤ debt) (h : Edited s s' b coll debt) : Move c s₀ plan s s'
  | create {s s' : System} (b : Address) (coll debt NICR : ℕ) (hplan : plan.stake = some (b, coll))
      (hstart : Frame s₀ s) (hnew : (trove s b).status ≠ .active) (hdebt : MIN_NET_DEBT ≤ debt)
      (hNICR : computeNominalCR coll debt = .ok NICR) (h : Created s s' b coll debt NICR) : Move c s₀ plan s s'
  | close {s s' : System} (b : Address) (status : Status) (h : Closed s s' b status) : Move c s₀ plan s s'
  | liquidate {s s₁ s' : System} (b : Address) (t : EntireTrove) (ht : getEntireDebtAndColl s b = .ok t)
      (h : Moved c s s₁ t.pendingSIMDebtReward t.pendingWSTETHReward) (h' : Closed s₁ s' b .closedByLiquidation) :
      Move c s₀ plan s s'
  | redistribute {s s' : System} (coll : ℕ) (hpos : plan.redistributed ≠ 0)
      (h : Redistributed c s s' plan.redistributed coll) : Move c s₀ plan s s'
  | snapshot {s s' : System} (coll : ℕ) (hopen : s.sortedTroves.size ≠ 0)
      (h : updateSystemSnapshots_excludeCollRemainder s coll = .ok s') : Move c s₀ plan s s'

/-- the moves of a transaction -/
abbrev Moves (c : Config) (s₀ : System) (plan : Plan) : System → System → Prop := Relation.ReflTransGen (Move c s₀ plan)

/-- **Invariants by moves.** What every move keeps, every sequence of moves keeps. -/
theorem Moves.keeps {plan : Plan} {I : System → Prop} (hmove : ∀ s s', I s → Move c s₀ plan s s' → I s') (h : Moves c s₀ plan s s')
    (hI : I s) : I s' := by
  induction h with
  | refl => exact hI
  | tail _ hm ih => exact hmove _ _ ih hm

/-! ## What only moves tokens -/

section Frames

variable {caller src dst account : Address} {amount : ℕ}

theorem Frame.of_eq (h1 : s'.troveManager = s.troveManager) (h2 : s'.sortedTroves = s.sortedTroves)
    (h3 : s'.defaultPool = s.defaultPool) : Frame s s' := ⟨⟨_, _, h1⟩, h2, h3⟩

theorem transferWSTETH_frame (h : transferWSTETH s src dst amount = .ok s') : Frame s s' := by
  obtain ⟨t, -, rfl⟩ := transferWSTETH_ok h
  exact .of_eq rfl rfl rfl

theorem transferFromWSTETH_frame (h : transferFromWSTETH s caller src dst amount = .ok s') : Frame s s' := by
  obtain ⟨t, -, rfl⟩ := transferFromWSTETH_ok h
  exact .of_eq rfl rfl rfl

theorem sendWSTETH_frame (h : ActivePool.sendWSTETH c caller s account amount = .ok s') (hne : account ≠ c.defaultPool) :
    Frame s s' := by
  obtain ⟨-, t, -, hn⟩ := ActivePool.sendWSTETH_ok h
  refine .of_eq hn.troveManager hn.sortedTroves ?_
  rw [hn.defaultPool, if_neg hne]
  rfl

theorem activePoolAddColl_frame (h : activePoolAddColl c s amount = .ok s') : Frame s s' := by
  obtain ⟨s₁, h1, h⟩ := bind_ok.1 h
  obtain rfl := ActivePool.receiveWSTETH_ok h
  exact (transferWSTETH_frame h1).trans (.of_eq rfl rfl rfl)

theorem issueSIM_frame {SIMAmount : ℕ} (h : issueSIM c s account SIMAmount amount = .ok s') : Frame s s' := by
  obtain ⟨s₁, h1, h⟩ := bind_ok.1 h
  obtain rfl := ActivePool.increaseSIMDebt_ok h1
  obtain ⟨t, -, rfl⟩ := SIMToken.mint_ok h
  exact .of_eq rfl rfl rfl

theorem burnSIM_frame (h : burnSIM c s account amount = .ok s') : Frame s s' := by
  obtain ⟨s₁, h1, h⟩ := bind_ok.1 h
  obtain ⟨-, rfl⟩ := ActivePool.decreaseSIMDebt_ok h1
  obtain ⟨t, -, rfl⟩ := SIMToken.burn_ok h
  exact .of_eq rfl rfl rfl

theorem chargeFee_frame {charged : Bool} {SIMAmount maxFee netDebt : ℕ}
    (h : chargeFee c env s charged SIMAmount maxFee = .ok (s', netDebt)) : Frame s s' := by
  obtain ⟨fee, hf⟩ := chargeFee_ok h
  obtain ⟨r, t, ht⟩ := hf.state
  refine ⟨⟨r, t, ?_⟩, ?_, ?_⟩ <;> rw [ht]

theorem moveTokens_frame {x : TroveChange} {SIMChange : ℕ} (hne : account ≠ c.defaultPool)
    (h : moveTokensAndWSTETHfromAdjustment c s account x SIMChange = .ok s') : Frame s s' := by
  obtain ⟨s₁, h1, h⟩ := bind_ok.1 h
  have hSIM : Frame s s₁ := by
    unfold moveSIM at h1
    split_ifs at h1
    · exact issueSIM_frame h1
    · exact burnSIM_frame h1
  refine hSIM.trans ?_
  unfold moveColl at h
  split_ifs at h
  · exact activePoolAddColl_frame h
  · exact sendWSTETH_frame h hne

theorem accountCollSurplus_frame (h : accountCollSurplus c s account amount = .ok s') : Frame s s' := by
  unfold accountCollSurplus at h
  split_ifs at h
  · obtain rfl := CollSurplusPool.accountSurplus_ok h
    exact .of_eq rfl rfl rfl
  · cases h
    exact .refl s

theorem redeemCloseTrove_frame (h : redeemCloseTrove c s account amount = .ok s') : Frame s s' := by
  obtain ⟨s₁, h1, h⟩ := bind_ok.1 h
  obtain rfl := CollSurplusPool.accountSurplus_ok h1
  have hsent := sendWSTETH_frame h (Ne.symm c.ne.2.2.2.2.1)
  exact ⟨hsent.troveManager, hsent.sortedTroves, hsent.defaultPool⟩

theorem offset_frame {debt coll : ℕ} (h : StabilityPool.offset c env caller s debt coll = .ok s') : Frame s s' := by
  rcases offset_steps h with ⟨-, rfl⟩ | ⟨-, -, issued, pool, t, -, -, hsent⟩
  · exact .refl s'
  · have hsent := sendWSTETH_frame hsent (Ne.symm c.ne.2.2.2.1)
    exact ⟨hsent.troveManager, hsent.sortedTroves, hsent.defaultPool⟩

theorem sendCollSurplus_frame (h : sendCollSurplus c s amount = .ok s') : Frame s s' := by
  unfold sendCollSurplus at h
  split_ifs at h
  · exact sendWSTETH_frame h (Ne.symm c.ne.2.2.2.2.1)
  · cases h
    exact .refl s

theorem sendGasCompensation_frame (hne : account ≠ c.defaultPool) (h : sendGasCompensation c s account amount = .ok s') :
    Frame s s' := by
  unfold sendGasCompensation at h
  split_ifs at h
  · exact sendWSTETH_frame h hne
  · cases h
    exact .refl s

theorem finishRedemption_frame {price maxFee supply : ℕ} {t : RedemptionTotals} (hne : account ≠ c.defaultPool)
    (h : finishRedemption c env account price maxFee supply t = .ok s') : Frame t.s s' := by
  obtain ⟨fee, s₁, s₂, s₃, s₄, hs⟩ := finishRedemption_ok h
  have hfee : c.wstETHVeDistributor ≠ c.defaultPool := by
    have := c.wstETHVeDistributor_outside
    simp only [List.mem_cons, not_or] at this
    exact this.2.1
  have hrate : Frame t.s s₁ := by
    obtain ⟨r, time, rfl⟩ := hs.rate
    exact ⟨⟨r, time, rfl⟩, rfl, rfl⟩
  have hburn : Frame s₂ s₄ := by
    obtain ⟨u, -, rfl⟩ := SIMToken.burn_ok hs.burned
    obtain ⟨-, rfl⟩ := ActivePool.decreaseSIMDebt_ok hs.cancelled
    exact .of_eq rfl rfl rfl
  exact hrate.trans ((sendWSTETH_frame hs.feeSent hfee).trans (hburn.trans (sendWSTETH_frame hs.paid hne)))

end Frames

/-! ## Applied rewards -/

/-- the state with the rewards of `b` applied -/
structure Settled (s s' : System) (b : Address) : Prop where
  coll : (trove s' b).coll = settledColl s b
  debt : (trove s' b).debt = settledDebt s b
  others : ∀ a, a ≠ b → SamePosition s s' a
  arrived : Arrived s s' b
  list : s'.sortedTroves = s.sortedTroves

theorem settlePendingRewards_settled (h : settlePendingRewards c s b = .ok s') : Settled s s' b := by
  rcases settlePendingRewards_ok h with ⟨hno, rfl⟩ | ⟨hhas, pw, pd, hpw, hpd, hmoved⟩
  · refine ⟨?_, ?_, fun a _ => .refl _ a, ⟨rfl, rfl, rfl, rfl, ?_, rfl, rfl⟩, rfl⟩
    · simp [settledColl, hno]
    · simp [settledDebt, hno]
    · simp [hno]
  · have hactive : (trove s b).status = .active := by
      simp only [hasPendingRewards, decide_eq_true_eq] at hhas
      exact hhas.1
    obtain ⟨-, hpw⟩ := pendingReward_ok hpw
    obtain ⟨-, hpd⟩ := pendingReward_ok hpd
    rw [if_pos hactive] at hpw hpd
    obtain ⟨t, -, rfl⟩ := hmoved.state
    refine ⟨?_, ?_, fun a ha => ⟨rfl, rfl, ?_, (s.troveManager.Troves a).arrayIndex, ?_⟩,
      ⟨rfl, rfl, rfl, rfl, ?_, ?_, ?_⟩, rfl⟩
    · simp [trove, settledManager, settledColl, hhas, hpw]
    · simp [trove, settledManager, settledDebt, hhas, hpd]
    · exact Function.update_of_ne ha _ _
    · exact Function.update_of_ne ha _ _
    · simp [settledManager, hhas]
    · simp [trove, settledManager]
    · simp [trove, settledManager]

theorem settlePendingRewards_moves {plan : Plan} (h : settlePendingRewards c s b = .ok s') : Moves c s₀ plan s s' := by
  rcases settlePendingRewards_ok h with ⟨-, rfl⟩ | ⟨hhas, pw, pd, hpw, hpd, hmoved⟩
  · exact .refl
  · exact .single (.settle b pw pd hhas hpw hpd hmoved)

/-! ## The troves above in the list -/

namespace TroveManager.SamePosition

theorem settledColl (h : SamePosition s s' a) : Protocol.settledColl s' a = Protocol.settledColl s a := by
  obtain ⟨h1, -, h2, -⟩ := h.fields
  simp only [Protocol.settledColl, h.hasPendingRewards, h.L_WSTETH, h.snapshot, h1, h2]

theorem settledDebt (h : SamePosition s s' a) : Protocol.settledDebt s' a = Protocol.settledDebt s a := by
  obtain ⟨-, h1, h2, -⟩ := h.fields
  simp only [Protocol.settledDebt, h.hasPendingRewards, h.L_SIMDebt, h.snapshot, h1, h2]

theorem of_frame (h : Frame s s') : SamePosition s s' a := by
  obtain ⟨r, t, ht⟩ := h.troveManager
  refine ⟨?_, ?_, ?_, (s.troveManager.Troves a).arrayIndex, ?_⟩ <;> rw [ht]

end TroveManager.SamePosition

/-- a walk up the list that started in `s₀` and now is in `s`: the troves of `xs`, from the head down, are still to come
and are as they were -/
structure Walk (s₀ s : System) (xs : List Address) : Prop where
  start : ∃ zs, SortedTroves.IsChain s₀.sortedTroves (xs ++ zs)
  now : ∃ ys, SortedTroves.IsChain s.sortedTroves (xs ++ ys)
  same : ∀ a ∈ xs, SamePosition s₀ s a
  totalStakesSnapshot : s.troveManager.totalStakesSnapshot = s₀.troveManager.totalStakesSnapshot
  totalCollateralSnapshot : s.troveManager.totalCollateralSnapshot = s₀.troveManager.totalCollateralSnapshot

namespace Walk

variable {xs : List Address}

theorem begin_ {zs : List Address} (h : SortedTroves.IsChain s.sortedTroves (xs ++ zs)) : Walk s s xs :=
  ⟨⟨zs, h⟩, ⟨zs, h⟩, fun a _ => .refl s a, rfl, rfl⟩

theorem frame (h : Walk s₀ s xs) (hf : Frame s s') : Walk s₀ s' xs := by
  obtain ⟨r, t, ht⟩ := hf.troveManager
  refine ⟨h.start, ?_, fun a ha => (h.same a ha).trans (.of_frame hf), ?_, ?_⟩
  · rw [hf.sortedTroves]
    exact h.now
  · rw [ht]
    exact h.totalStakesSnapshot
  · rw [ht]
    exact h.totalCollateralSnapshot

/-- the trove the walk is at is not among those to come -/
theorem notMem (h : Walk s₀ s (xs ++ [b])) : b ∉ xs := by
  obtain ⟨ys, hc⟩ := h.now
  have hnodup := hc.nodup
  simp only [List.append_assoc, List.singleton_append] at hnodup
  exact fun hb => (List.nodup_cons.1 (List.nodup_middle.1 hnodup)).1 (List.mem_append_left _ hb)

/-- the trove above, in both states -/
theorem getPrev (h : Walk s₀ s (xs ++ [b])) : SortedTroves.getPrev s.sortedTroves b = xs.getLastD 0 ∧
    SortedTroves.getPrev s₀.sortedTroves b = xs.getLastD 0 := by
  obtain ⟨ys, hc⟩ := h.now
  obtain ⟨zs, hc'⟩ := h.start
  simp only [List.append_assoc, List.singleton_append] at hc hc'
  exact ⟨hc.getPrev_eq, hc'.getPrev_eq⟩

end Walk

/-- the other troves are as they were when one is closed -/
theorem closedManager_Troves (tm : TroveManager) (b : Address) (status : Status) (ha : a ≠ b) :
    ∃ i, (closedManager tm b status).Troves a = { tm.Troves a with arrayIndex := i } := by
  dsimp only [closedManager]
  by_cases hlast : a = tm.TroveOwners.getD (tm.TroveOwners.length - 1) 0
  · rw [← hlast, Function.update_self, Function.update_of_ne ha]
    exact ⟨_, rfl⟩
  · rw [Function.update_of_ne hlast, Function.update_of_ne ha]
    exact ⟨_, rfl⟩

/-- a trove is gone: the others and the totals are as they were, its node is out of the list -/
structure Gone (s s' : System) (b : Address) : Prop where
  others : ∀ a, a ≠ b → SamePosition s s' a
  list : SortedTroves.remove s.sortedTroves b = .ok s'.sortedTroves
  totalStakesSnapshot : s'.troveManager.totalStakesSnapshot = s.troveManager.totalStakesSnapshot
  totalCollateralSnapshot : s'.troveManager.totalCollateralSnapshot = s.troveManager.totalCollateralSnapshot

theorem Closed.gone {status : Status} (h : Closed s s' b status) : Gone s s' b := by
  refine ⟨fun a ha => ?_, h.list, ?_, ?_⟩
  · refine ⟨?_, ?_, ?_, ?_⟩ <;> rw [h.troveManager]
    · rfl
    · rfl
    · exact Function.update_of_ne ha _ _
    · exact closedManager_Troves s.troveManager b status ha
  · rw [h.troveManager]
    rfl
  · rw [h.troveManager]
    rfl

theorem Gone.of_eq {s₁ : System} (h : Gone s₁ s' b) (htm : s₁.troveManager = s.troveManager)
    (hl : s₁.sortedTroves = s.sortedTroves) : Gone s s' b :=
  ⟨fun a ha => (SamePosition.of_eq htm).trans (h.others a ha), hl ▸ h.list, h.totalStakesSnapshot.trans (by rw [htm]),
    h.totalCollateralSnapshot.trans (by rw [htm])⟩

/-- the walk goes on above a trove that was closed -/
theorem Walk.pass {xs : List Address} (h : Walk s₀ s (xs ++ [b])) (hg : Gone s s' b) : Walk s₀ s' xs := by
  have hb := h.notMem
  obtain ⟨zs, hstart⟩ := h.start
  obtain ⟨ys, hnow⟩ := h.now
  simp only [List.append_assoc, List.singleton_append] at hstart hnow
  exact ⟨⟨b :: zs, hstart⟩, ⟨ys, SortedTroves.remove_split hnow hg.list⟩,
    fun a ha => (h.same a (List.mem_append_left _ ha)).trans (hg.others a fun e => hb (e ▸ ha)),
    hg.totalStakesSnapshot.trans h.totalStakesSnapshot, hg.totalCollateralSnapshot.trans h.totalCollateralSnapshot⟩

/-- a walk stands at the last trove to come, or at no trove -/
theorem getLastD_cases (xs : List Address) {user : Address} (h : user = xs.getLastD 0) (h0 : user ≠ 0) :
    ∃ ys, xs = ys ++ [user] := by
  rcases xs.eq_nil_or_concat with rfl | ⟨ys, y, rfl⟩
  · exact absurd h h0
  · exact ⟨ys, by simp [h]⟩

/-- applying the rewards of the trove the walk is at -/
theorem Walk.settled {xs : List Address} (h : Walk s₀ s (xs ++ [b])) (hs : Settled s s' b) :
    (trove s' b).coll = settledColl s₀ b ∧ (trove s' b).debt = settledDebt s₀ b ∧ Arrived s₀ s' b := by
  have hb := h.same b (by simp)
  refine ⟨hs.coll.trans hb.settledColl, hs.debt.trans hb.settledDebt, hs.arrived.L_WSTETH.trans hb.L_WSTETH,
    hs.arrived.L_SIMDebt.trans hb.L_SIMDebt, hs.arrived.totalStakesSnapshot.trans h.totalStakesSnapshot,
    hs.arrived.totalCollateralSnapshot.trans h.totalCollateralSnapshot, ?_, hs.arrived.stake.trans hb.fields.2.2.1,
    hs.arrived.status.trans hb.fields.2.2.2⟩
  rw [hs.arrived.snapshot, hb.hasPendingRewards, hb.L_WSTETH, hb.L_SIMDebt, hb.snapshot]

/-- the trove is closed after its rewards were applied -/
theorem Settled.gone {s₁ : System} (hs : Settled s s₁ b) (hg : Gone s₁ s' b) : Gone s s' b :=
  ⟨fun a ha => (hs.others a ha).trans (hg.others a ha), hs.list ▸ hg.list,
    hg.totalStakesSnapshot.trans hs.arrived.totalStakesSnapshot,
    hg.totalCollateralSnapshot.trans hs.arrived.totalCollateralSnapshot⟩

/-! ## Redemption, trove by trove -/

section Redemption

variable {price n : ℕ} {hint : PartialRedemptionHint} {t t' : RedemptionTotals} {user : Address} {xs : List Address}

theorem redeemLoop_done (h : user = 0 ∨ t.remainingSIM = 0) : redeemLoop c price hint n user t = .ok t := by
  cases n with
  | zero => rfl
  | succ n => exact if_pos h

/-- one trove of a redemption, by what its debt was at the start: it is paid off and the walk goes on, or the partial
redemption is cancelled, or the trove is left with the rest of its debt -/
inductive RedeemStep (c : Config) (price : ℕ) (hint : PartialRedemptionHint) (n : ℕ) (s₀ : System) (xs : List Address)
    (b : Address) (t : RedemptionTotals) (s₁ : System) (t' : RedemptionTotals) : Prop
  | paid (s₂ s₃ : System) (hle : settledDebt s₀ b ≤ t.remainingSIM) (hclosed : Closed s₁ s₂ b .closedByRedemption)
      (hsurplus : redeemCloseTrove c s₂ b (settledColl s₀ b - settledDebt s₀ b * DECIMAL_PRECISION / price) = .ok s₃)
      (hloop : redeemLoop c price hint n (xs.getLastD 0)
        ⟨s₃, t.remainingSIM - settledDebt s₀ b, t.totalSIMToRedeem + settledDebt s₀ b,
          t.totalWSTETHDrawn + settledDebt s₀ b * DECIMAL_PRECISION / price⟩ = .ok t')
  | cancelled (NICR : ℕ) (hlt : t.remainingSIM < settledDebt s₀ b)
      (hNICR : computeNominalCR (settledColl s₀ b - t.remainingSIM * DECIMAL_PRECISION / price)
          (settledDebt s₀ b - t.remainingSIM) = .ok NICR)
      (hcancel : NICR ≠ hint.NICR ∨ settledDebt s₀ b - t.remainingSIM < MIN_NET_DEBT)
      (ht : t' = { t with s := s₁ })
  | left_ (s₂ : System) (hlt : t.remainingSIM < settledDebt s₀ b)
      (hNICR : computeNominalCR (settledColl s₀ b - t.remainingSIM * DECIMAL_PRECISION / price)
          (settledDebt s₀ b - t.remainingSIM) = .ok hint.NICR)
      (hmin : MIN_NET_DEBT ≤ settledDebt s₀ b - t.remainingSIM)
      (hedited : Edited s₁ s₂ b (settledColl s₀ b - t.remainingSIM * DECIMAL_PRECISION / price)
        (settledDebt s₀ b - t.remainingSIM))
      (ht : t' = ⟨s₂, 0, t.totalSIMToRedeem + t.remainingSIM,
        t.totalWSTETHDrawn + t.remainingSIM * DECIMAL_PRECISION / price⟩)

theorem redeemLoop_step (hw : Walk s₀ t.s (xs ++ [b])) (hb : b ≠ 0) (hrem : t.remainingSIM ≠ 0)
    (h : redeemLoop c price hint (n + 1) b t = .ok t') :
    ∃ s₁, settlePendingRewards c t.s b = .ok s₁ ∧ RedeemStep c price hint n s₀ xs b t s₁ t' := by
  unfold redeemLoop at h
  rw [if_neg (by simp [hb, hrem])] at h
  obtain ⟨s₁, h1, h⟩ := bind_ok.1 h
  obtain ⟨⟨s₂, w⟩, h2, h⟩ := bind_ok.1 h
  refine ⟨s₁, h1, ?_⟩
  obtain ⟨hcoll, hdebt, -⟩ := hw.settled (settlePendingRewards_settled h1)
  obtain ⟨⟨hlot, hdrawn, -, -⟩, hcase⟩ := redeemCollateralFromTrove_ok h2
  rw [hdebt] at hlot hcase
  rw [hcoll] at hcase
  rcases hcase with ⟨hnot, hall, s₃, s₄, h3, h4, h5⟩ | ⟨hlt, NICR, hN, ⟨hcan, hs, hwhy⟩ | ⟨hnot, rfl, hmin, hedit⟩⟩
  · simp only [hnot, Bool.false_eq_true, if_false, uadd_bind, usub_bind] at h
    obtain ⟨-, -, -, h⟩ := h
    rw [hw.getPrev.1, hdrawn, hall] at h
    rw [hdrawn, hall] at h5
    exact .paid s₄ s₂ (by omega) (shut_closed h3 h4) h5 h
  · simp only [hcan, if_true, pure_ok, hs] at h
    have hrest : w.SIMLot = t.remainingSIM := by omega
    rw [hdrawn, hrest] at hN
    rw [hrest] at hwhy hlt
    exact .cancelled NICR hlt hN hwhy h.symm
  · simp only [hnot, Bool.false_eq_true, if_false, uadd_bind, usub_bind] at h
    obtain ⟨-, -, -, h⟩ := h
    have hrest : w.SIMLot = t.remainingSIM := by omega
    rw [redeemLoop_done (.inr (by dsimp only; omega))] at h
    rw [hdrawn, hrest] at hN hedit h
    rw [hrest] at hmin hlt
    simp only [Except.ok.injEq, Nat.sub_self] at h
    exact .left_ s₂ hlt hN hmin hedit h.symm

end Redemption

/-! ## What a transaction will do -/

/-- the trove that a redemption from `user` upwards leaves with a debt, and what it takes from it -/
def partialTrove (s : System) : ℕ → Address → ℕ → Option (Address × ℕ)
  | 0, _, _ => none
  | rounds + 1, user, remainingSIM =>
    if user = 0 ∨ remainingSIM = 0 then none
    else if remainingSIM < settledDebt s user then some (user, remainingSIM)
    else partialTrove s rounds (SortedTroves.getPrev s.sortedTroves user) (remainingSIM - settledDebt s user)

/-- that trove, with the collateral it is left with -/
def redeemedStake (env : Env) (s : System) (args : RedeemArgs) : Option (Address × ℕ) :=
  match env.fetchPrice with
  | .error _ => none
  | .ok price =>
    match firstBorrower s price args.firstRedemptionHint with
    | .error _ => none
    | .ok user =>
      (partialTrove s (iterationCap args.maxIterations) user args.SIMamount).map fun x =>
        (x.1, settledColl s x.1 - x.2 * DECIMAL_PRECISION / price)

/-- the collateral of an adjusted trove, for what arrives at `BorrowerOperations` with the call -/
def adjustedColl (c : Config) (s : System) (b : Address) (arriving collWithdrawal : ℕ) : ℕ :=
  let x := getCollChange (s.wsteth.balanceOf c.borrowerOperations + arriving) collWithdrawal
  after (settledColl s b) x.1 x.2

/-- the collateral gain that a depositor moves to their trove -/
def gainToTrove (env : Env) (s : System) (depositor : Address) : ℕ :=
  match (do
    let issued ← env.issueSHADY
    SimContracts.StabilityPool.withdrawWSTETHGainToTrove s.stabilityPool depositor issued
      (StabilityPool.statusCode (trove s depositor).status)) with
  | .ok (_, payout) => payout.wsteth
  | .error _ => 0

/-- the debt that a liquidation redistributes -/
def redistributes (env : Env) (s : System) (totals : ℕ → Bool → Res LiquidationSequence) : ℕ :=
  match (do
    let price ← env.fetchPrice
    let recoveryModeAtStart ← checkRecoveryMode s price
    totals price recoveryModeAtStart) with
  | .ok v => v.totals.totalDebtToRedistribute
  | .error _ => 0

/-- the stake that a transaction sets and the debt that it redistributes, read off the state before it -/
def plan (c : Config) (s : System) (tx : Tx c) : Plan :=
  let env := tx.env
  let sender := tx.sender.address
  match tx.call with
  | .openTrove amount _ _ _ _ => ⟨some (sender, amount), 0⟩
  | .addColl amount _ _ => ⟨some (sender, adjustedColl c s sender amount 0), 0⟩
  | .withdrawColl collWithdrawal _ _ => ⟨some (sender, adjustedColl c s sender 0 collWithdrawal), 0⟩
  | .withdrawSIM _ _ _ _ => ⟨some (sender, adjustedColl c s sender 0 0), 0⟩
  | .repaySIM _ _ _ => ⟨some (sender, adjustedColl c s sender 0 0), 0⟩
  | .adjustTrove addColAmount args => ⟨some (sender, adjustedColl c s sender addColAmount args.collWithdrawal), 0⟩
  | .withdrawWSTETHGainToTrove _ _ => ⟨some (sender, adjustedColl c s sender (gainToTrove env s sender) 0), 0⟩
  | .redeemCollateral args => ⟨redeemedStake env s args, 0⟩
  | .liquidate borrower => ⟨none, redistributes env s fun price mode => batchTotals c price s mode [borrower]⟩
  | .liquidateTroves n => ⟨none, redistributes env s fun price mode => liquidateTrovesTotals c price s mode n⟩
  | .batchLiquidateTroves troveArray =>
    ⟨none, redistributes env s fun price mode => batchTotals c price s mode troveArray⟩
  | _ => ⟨none, 0⟩

/-! ## Every transaction is a sequence of moves -/

section Exec

variable {plan : Plan} {sender account : Address} {amount : ℕ} {p n : Address}

theorem Frame.moves (h : Frame s s') : Moves c s₀ plan s s' := .single (.frame h)

theorem openTrove_moves {maxFee SIMAmount : ℕ} (hplan : plan.stake = some (sender, amount))
    (h : openTrove c env sender s amount maxFee SIMAmount p n = .ok s') : Moves c s plan s s' := by
  obtain ⟨price, mode, s₁, s₂, s₃, s₄, netDebt, hs⟩ := openTrove_ok h
  obtain ⟨ICR, NICR, -, hN, -, hc⟩ := hs.created
  have hstart := (transferFromWSTETH_frame hs.received).trans (chargeFee_frame hs.fee)
  have hnew : (trove s₂ sender).status ≠ .active := by
    rw [((SamePosition.of_frame (chargeFee_frame hs.fee)).fields).2.2.2]
    exact hs.notActive
  refine hstart.moves.trans (.head (.create sender amount netDebt NICR hplan hstart hnew hs.min hN hc) ?_)
  exact ((activePoolAddColl_frame hs.added).trans (issueSIM_frame hs.issued)).moves

theorem adjustChange_newDebt (s : System) (a : AdjustArgs) (net : ℕ) (t : Trove) :
    (adjustChange c s a net).newDebt t = if a.isDebtIncrease then t.debt + net else t.debt - net := rfl

/-- an adjustment of a trove of `s`, made in a state `s₁` that differs in tokens only -/
theorem adjust_moves {s₁ : System} {a : AdjustArgs} (hs : Frame s s₁) (hne : sender ≠ c.defaultPool)
    (hplan : plan.stake = some (b, adjustedColl c s₁ b 0 a.collWithdrawal)) (h : adjust c env sender s₁ b a = .ok s') :
    Moves c s plan s₁ s' := by
  obtain ⟨price, mode, s₂, s₃, s₄, net, hstep⟩ := adjust_ok h
  have hsettled := settlePendingRewards_settled hstep.settled
  have hfee := chargeFee_frame hstep.fee
  obtain ⟨hcoll, -, hstake, hstatus⟩ := (SamePosition.of_frame (a := b) hfee).fields
  have hsame : SamePosition s s₁ b := .of_frame hs
  obtain ⟨r, t, ht⟩ := hs.troveManager
  obtain ⟨r', t', ht'⟩ := hfee.troveManager
  have harr := hsettled.arrived
  have harrived : Arrived s s₃ b := by
    refine ⟨?_, ?_, ?_, ?_, ?_, hstake.trans (harr.stake.trans hsame.fields.2.2.1),
      hstatus.trans (harr.status.trans hsame.fields.2.2.2)⟩ <;> rw [ht']
    · exact harr.L_WSTETH.trans hsame.L_WSTETH
    · exact harr.L_SIMDebt.trans hsame.L_SIMDebt
    · exact harr.totalStakesSnapshot.trans (by rw [ht])
    · exact harr.totalCollateralSnapshot.trans (by rw [ht])
    · dsimp only
      rw [harr.snapshot, hsame.hasPendingRewards, hsame.L_WSTETH, hsame.L_SIMDebt, hsame.snapshot]
  have hnewColl : (adjustChange c s₁ a net).newColl (trove s₃ b) = adjustedColl c s₁ b 0 a.collWithdrawal := by
    simp only [TroveChange.newColl, adjustChange, adjustedColl, hcoll, hsettled.coll, Nat.add_zero]
  have hdebt : MIN_NET_DEBT ≤ (adjustChange c s₁ a net).newDebt (trove s₃ b) ∨
      (trove s₃ b).debt ≤ (adjustChange c s₁ a net).newDebt (trove s₃ b) := by
    rw [adjustChange_newDebt]
    by_cases hup : a.isDebtIncrease = true
    · right
      rw [if_pos hup]
      exact Nat.le_add_right _ _
    · rw [if_neg hup]
      rw [Bool.not_eq_true] at hup
      have hrep := hstep.repayment
      obtain ⟨fee, hcharged⟩ := chargeFee_ok hstep.fee
      have hnet : net = a.SIMChange := by
        rw [hcharged.netDebt, hcharged.free (by simp [hup]), Nat.add_zero]
      by_cases hpos : 0 < a.SIMChange
      · left
        simp only [requireValidRepayment, hup, hpos, and_self, if_true, usub_bind, requireAtLeastMinNetDebt,
          require_bind] at hrep
        exact hrep.2.1
      · right
        omega
  refine (settlePendingRewards_moves hstep.settled).trans (hfee.moves.trans (.head
    (.edit b _ _ (hnewColl ▸ hplan) harrived hdebt hstep.edited) (moveTokens_frame hne hstep.moved).moves))

theorem closeTrove_moves (hne : sender ≠ c.defaultPool) (h : BorrowerOperations.closeTrove c env sender s = .ok s') :
    Moves c s₀ plan s s' := by
  obtain ⟨price, s₁, s₂, s₃, s₄, hs⟩ := closeTrove_ok h
  refine (settlePendingRewards_moves hs.settled).trans (.head (.close sender .closedByOwner (shut_closed hs.unstaked hs.shut)) ?_)
  exact ((burnSIM_frame hs.burned).trans (sendWSTETH_frame hs.sent hne)).moves

/-! ### Liquidations -/

theorem TroveManager.Liquidated.moves {v : LiquidationValues} {SIMInStabPool : ℕ} (h : Liquidated c s s' b v SIMInStabPool) :
    Moves c s₀ plan s s' ∧ s'.sortedTroves.size ≠ 0 := by
  obtain ⟨t, s₁, s₂, s₃, ht, -, -, hmoved, hstake, hshut, hsurplus⟩ := h.steps
  have hclosed := shut_closed hstake hshut
  have hframe := accountCollSurplus_frame hsurplus
  refine ⟨.head (.liquidate b t ht hmoved hclosed) hframe.moves, ?_⟩
  rw [hframe.sortedTroves, SortedTroves.remove_size hclosed.list]
  have := hclosed.size
  omega

/-- the troves of a sequence, and that one is left after the first -/
theorem liquidated_moves {v v' : LiquidationSequence} (h : Sequence c v v') (hv : v.totals.totalDebtInSequence = 0) :
    Moves c s₀ plan v.s v'.s ∧ (v'.totals.totalDebtInSequence ≠ 0 → v'.s.sortedTroves.size ≠ 0) := by
  induction h with
  | refl => exact ⟨.refl, fun h => absurd hv h⟩
  | tail _ hstep ih =>
    obtain ⟨user, single, hstep⟩ := hstep
    rcases hstep.state with ⟨hs, rfl⟩ | ⟨-, hl⟩
    · rw [hs, hstep.totals]
      exact ih
    · obtain ⟨hm, hopen⟩ := hl.moves
      exact ⟨ih.1.trans hm, fun _ => hopen⟩

theorem finishLiquidation_moves {t : LiquidationTotals} (hne : sender ≠ c.defaultPool)
    (hplan : plan.redistributed = t.totalDebtToRedistribute) (hopen : s.sortedTroves.size ≠ 0)
    (h : finishLiquidation c env sender s t = .ok s') : Moves c s₀ plan s s' := by
  obtain ⟨s₁, s₂, s₃, s₄, hs⟩ := finishLiquidation_ok h
  have hoffset := offset_frame hs.offset
  have hsurplus := sendCollSurplus_frame hs.surplus
  have hred : Moves c s₀ plan s₁ s₂ ∧ s₂.sortedTroves = s₁.sortedTroves := by
    rcases redistributeDebtAndColl_ok hs.redistributed with ⟨-, rfl⟩ | ⟨hpos, hred⟩
    · exact ⟨.refl, rfl⟩
    · refine ⟨.single (.redistribute t.totalCollToRedistribute (hplan ▸ hpos) (hplan ▸ hred)), ?_⟩
      obtain ⟨rw, ew, rd, ed, u, -, -, -, rfl⟩ := hred.state
      rfl
  have hlist : s₃.sortedTroves = s.sortedTroves :=
    hsurplus.sortedTroves.trans (hred.2.trans hoffset.sortedTroves)
  exact hoffset.moves.trans (hred.1.trans (hsurplus.moves.trans (.head
    (.snapshot t.totalCollGasCompensation (hlist ▸ hopen) hs.snapshot)
    (sendGasCompensation_frame hne hs.compensation).moves)))

/-- both entry points, by the totals their loops return -/
theorem liquidation_moves {totals : ℕ → Bool → Res LiquidationSequence} {price : ℕ} {mode : Bool} {v : LiquidationSequence}
    (hne : sender ≠ c.defaultPool) (hplan : plan.redistributed = redistributes env s totals)
    (h : LiquidationSteps c env sender s totals price mode v s') : Moves c s₀ plan s s' := by
  obtain ⟨debt, coll, hseq⟩ := h.sequence
  have hred : redistributes env s totals = v.totals.totalDebtToRedistribute := by
    simp only [redistributes, h.fetched, h.recovery, h.counted, ok_bind]
  obtain ⟨hm, hopen⟩ := liquidated_moves hseq rfl
  have hpos : 0 < v.totals.totalDebtInSequence := by
    obtain ⟨_, _, _, _, hs⟩ := finishLiquidation_ok h.finished
    exact hs.pos
  exact hm.trans (finishLiquidation_moves hne (hplan.trans hred) (hopen (Nat.pos_iff_ne_zero.1 hpos)) h.finished)

/-! ### Redemptions -/

theorem getPrev_mem {ids : List Address} (hc : SortedTroves.IsChain s.sortedTroves ids) (ha : a ∈ ids) :
    SortedTroves.getPrev s.sortedTroves a = 0 ∨ SortedTroves.getPrev s.sortedTroves a ∈ ids := by
  obtain ⟨xs, ys, rfl⟩ := List.append_of_mem ha
  rw [hc.getPrev_eq]
  by_cases h0 : xs.getLastD 0 = 0
  · exact .inl h0
  · exact .inr (List.mem_append_left _ (SortedTroves.getLastD_mem h0))

theorem findRedeemable_mem {ids : List Address} (hc : SortedTroves.IsChain s.sortedTroves ids) {price rounds : ℕ}
    {user user' : Address} (huser : user = 0 ∨ user ∈ ids) (h : findRedeemable s price rounds user = .ok user') :
    user' = 0 ∨ user' ∈ ids := by
  induction rounds generalizing user with
  | zero => cases h
  | succ rounds ih =>
    unfold findRedeemable at h
    by_cases h0 : user = 0
    · rw [if_pos h0] at h
      cases h
      exact .inl rfl
    rw [if_neg h0] at h
    obtain ⟨ICR, -, h⟩ := bind_ok.1 h
    split_ifs at h
    · exact ih (getPrev_mem hc (huser.resolve_left h0)) h
    · cases h
      exact huser

theorem firstRedeemable_mem {ids : List Address} (hc : SortedTroves.IsChain s.sortedTroves ids) {price : ℕ}
    {user : Address} (h : firstRedeemable s price = .ok user) : user = 0 ∨ user ∈ ids := by
  refine findRedeemable_mem hc ?_ h
  unfold SortedTroves.getLast
  rw [hc.tail]
  by_cases h0 : ids.getLastD 0 = 0
  · exact .inl h0
  · exact .inr (SortedTroves.getLastD_mem h0)

/-- a redemption starts at a node, or nowhere -/
theorem firstBorrower_mem {ids : List Address} (hc : SortedTroves.IsChain s.sortedTroves ids) {price : ℕ}
    {user first : Address} (h : firstBorrower s price first = .ok user) : user = 0 ∨ user ∈ ids := by
  obtain ⟨valid, hv, h⟩ := bind_ok.1 h
  cases valid with
  | true =>
    cases h
    right
    unfold isValidFirstRedemptionHint at hv
    split_ifs at hv with h0
    · cases hv
    · rw [not_or, Bool.not_eq_false] at h0
      exact (hc.contains_iff _).1 h0.2
  | false => exact firstRedeemable_mem hc h

/-- the nodes of a walk from `user` upwards, which stands at a node or nowhere -/
theorem exists_walk {ids : List Address} (hc : SortedTroves.IsChain s.sortedTroves ids) {user : Address}
    (h : user = 0 ∨ user ∈ ids) : ∃ xs, Walk s s xs ∧ user = xs.getLastD 0 := by
  rcases h with rfl | hmem
  · exact ⟨[], .begin_ (List.nil_append ids ▸ hc), rfl⟩
  · obtain ⟨xs, ys, rfl⟩ := List.append_of_mem hmem
    rw [List.append_cons] at hc
    exact ⟨xs ++ [user], .begin_ hc, by simp⟩

theorem redeemLoop_moves {price rounds : ℕ} {hint : PartialRedemptionHint} {t t' : RedemptionTotals} {xs : List Address}
    (hw : Walk s₀ t.s xs)
    (hplan : plan.stake = (partialTrove s₀ rounds (xs.getLastD 0) t.remainingSIM).map fun x =>
      (x.1, settledColl s₀ x.1 - x.2 * DECIMAL_PRECISION / price))
    (h : redeemLoop c price hint rounds (xs.getLastD 0) t = .ok t') : Moves c s₀ plan t.s t'.s := by
  induction rounds generalizing xs t with
  | zero =>
    cases h
    exact .refl
  | succ rounds ih =>
    by_cases hdone : xs.getLastD 0 = 0 ∨ t.remainingSIM = 0
    · rw [redeemLoop_done hdone] at h
      cases h
      exact .refl
    rw [not_or] at hdone
    obtain ⟨hb, hrem⟩ := hdone
    obtain ⟨ys, hys⟩ := getLastD_cases xs rfl hb
    generalize xs.getLastD 0 = b at *
    subst hys
    rw [partialTrove, if_neg (by simp [hb, hrem])] at hplan
    obtain ⟨s₁, h1, hstep⟩ := redeemLoop_step hw hb hrem h
    have hsettled := settlePendingRewards_settled h1
    refine (settlePendingRewards_moves h1).trans ?_
    cases hstep with
    | paid s₂ s₃ hle hclosed hsurplus hloop =>
      have hframe := redeemCloseTrove_frame hsurplus
      refine .head (.close b _ hclosed) (hframe.moves.trans ?_)
      rw [if_neg (Nat.not_lt.2 hle), hw.getPrev.2] at hplan
      exact ih ((hw.pass (hsettled.gone hclosed.gone)).frame hframe) hplan hloop
    | cancelled NICR hlt hNICR hcancel ht =>
      rw [ht]
    | left_ s₂ hlt hNICR hmin hedited ht =>
      rw [if_pos hlt] at hplan
      rw [ht]
      exact .single (.edit b _ _ hplan (hw.settled hsettled).2.2 (.inl hmin) hedited)

theorem redeemCollateral_moves {ids : List Address} (hc : SortedTroves.IsChain s.sortedTroves ids) {args : RedeemArgs}
    (hne : sender ≠ c.defaultPool) (hplan : plan.stake = redeemedStake env s args)
    (h : redeemCollateral c env sender s args = .ok s') : Moves c s plan s s' := by
  obtain ⟨price, supply, user, t, hs⟩ := redeemCollateral_ok h
  simp only [redeemedStake, hs.fetched, hs.first] at hplan
  obtain ⟨xs, hw, rfl⟩ := exists_walk hc (firstBorrower_mem hc hs.first)
  exact (redeemLoop_moves hw hplan hs.loop).trans (finishRedemption_frame hne hs.finish).moves

/-! ### All calls -/

/-- collateral that a borrower sends arrives in full -/
theorem adjustedColl_received {s₁ : System} {collWithdrawal : ℕ} (hne : sender ≠ c.borrowerOperations)
    (h : transferFromWSTETH s c.borrowerOperations sender c.borrowerOperations amount = .ok s₁) :
    adjustedColl c s₁ b 0 collWithdrawal = adjustedColl c s b amount collWithdrawal := by
  have hcoll := (SamePosition.of_frame (a := b) (transferFromWSTETH_frame h)).settledColl
  obtain ⟨t, ht, rfl⟩ := transferFromWSTETH_ok h
  obtain ⟨t₁, hbal, -, htr⟩ := ERC20.transferFrom_ok ht
  have hreceived := ERC20.transfer_other htr (Ne.symm hne)
  rw [hbal, if_pos rfl] at hreceived
  simp only [adjustedColl, hcoll, hreceived, Nat.add_zero]

theorem sendGain_frame (h : StabilityPool.sendGain c s account amount = .ok s') : Frame s s' := by
  unfold StabilityPool.sendGain at h
  split_ifs at h
  · cases h
    exact .refl s
  · exact transferWSTETH_frame h

theorem sendSIM_frame (h : StabilityPool.sendSIM c s account amount = .ok s') : Frame s s' := by
  unfold StabilityPool.sendSIM at h
  split_ifs at h
  · cases h
    exact .refl s
  · obtain ⟨t, -, rfl⟩ := SIMToken.returnFromPool_ok h
    exact .of_eq rfl rfl rfl

theorem provideToSP_frame (h : StabilityPool.provideToSP c env sender s amount = .ok s') : Frame s s' := by
  obtain ⟨issued, pool, payout, s₁, hs⟩ := StabilityPool.provideToSP_ok h
  have hgain := sendGain_frame hs.paid
  obtain ⟨t, -, rfl⟩ := SIMToken.sendToPool_ok hs.received
  exact ⟨hgain.troveManager, hgain.sortedTroves, hgain.defaultPool⟩

theorem withdrawFromSP_frame (h : StabilityPool.withdrawFromSP c env sender s amount = .ok s') : Frame s s' := by
  obtain ⟨ICR, issued, pool, payout, s₁, hs⟩ := StabilityPool.withdrawFromSP_ok h
  have hgain := sendGain_frame hs.paid
  exact (sendSIM_frame hs.sent).trans ⟨hgain.troveManager, hgain.sortedTroves, hgain.defaultPool⟩

theorem claimCollateral_frame (h : claimCollateral c sender s = .ok s') : Frame s s' := by
  obtain ⟨-, t, -, rfl⟩ := CollSurplusPool.claimColl_ok h
  exact .of_eq rfl rfl rfl

/-- the gain that arrives at `BorrowerOperations` for a trove -/
theorem withdrawWSTETHGainToTrove_ok (h : StabilityPool.withdrawWSTETHGainToTrove c env sender s p n = .ok s') :
    ∃ pool t s₁, pool.totalSIMDeposits = s.stabilityPool.totalSIMDeposits ∧
      pool.WSTETH + gainToTrove env s sender = s.stabilityPool.WSTETH ∧
      s.wsteth.transfer c.stabilityPool c.borrowerOperations (gainToTrove env s sender) = .ok t ∧
      s₁ = { s with stabilityPool := pool, wsteth := t } ∧
      adjust c env c.stabilityPool s₁ sender ⟨0, 0, false, p, n, 0⟩ = .ok s' := by
  obtain ⟨issued, hissued, h⟩ := bind_ok.1 h
  obtain ⟨⟨pool, payout⟩, hp, h⟩ := bind_ok.1 h
  obtain ⟨_, -, h⟩ := bind_ok.1 h
  obtain ⟨s₁, h1, h⟩ := bind_ok.1 h
  obtain ⟨t, ht, rfl⟩ := transferWSTETH_ok h1
  simp only [moveWSTETHGainToTrove, require_bind] at h
  have hgain : gainToTrove env s sender = payout.wsteth := by
    simp only [gainToTrove, hissued, ok_bind, hp]
  obtain ⟨x, hstep⟩ := SimContracts.StabilityPool.withdrawWSTETHGainToTrove_ok hp
  exact ⟨pool, t, _, Nat.add_right_cancel hstep.total, hgain ▸ hstep.coll, hgain ▸ ht, rfl, h.2⟩

end Exec

/-- **Every successful transaction is a sequence of moves**, with the stake and the redistribution of its plan. -/
theorem exec_moves {ids : List Address} (hc : SortedTroves.IsChain s.sortedTroves ids) {tx : Tx c}
    (h : exec c s tx = .ok s') : Moves c s (plan c s tx) s s' := by
  obtain ⟨env, sender, call⟩ := tx
  have hdefault : sender.address ≠ c.defaultPool :=
    fun e => sender.notMem_pools (by simp [Config.pools, e])
  have hborrower : sender.address ≠ c.borrowerOperations :=
    fun e => sender.outside (by simp [Config.contracts, e])
  unfold exec at h
  cases call with
  | openTrove amount maxFee SIMAmount p n => exact openTrove_moves rfl h
  | addColl amount p n =>
    obtain ⟨s₁, h1, h⟩ := bind_ok.1 h
    have hf := transferFromWSTETH_frame h1
    refine hf.moves.trans (adjust_moves hf hdefault ?_ h)
    rw [adjustedColl_received hborrower h1]
    rfl
  | withdrawColl w p n => exact adjust_moves (.refl s) hdefault rfl h
  | withdrawSIM maxFee SIMAmount p n => exact adjust_moves (.refl s) hdefault rfl h
  | repaySIM SIMAmount p n => exact adjust_moves (.refl s) hdefault rfl h
  | adjustTrove amount args =>
    obtain ⟨s₁, h1, h⟩ := bind_ok.1 h
    unfold receiveColl at h1
    split_ifs at h1 with hpos
    · have hf := transferFromWSTETH_frame h1
      refine hf.moves.trans (adjust_moves hf hdefault ?_ h)
      rw [adjustedColl_received hborrower h1]
      rfl
    · cases h1
      obtain rfl : amount = 0 := by omega
      exact adjust_moves (.refl s) hdefault rfl h
  | closeTrove => exact closeTrove_moves hdefault h
  | claimCollateral => exact (claimCollateral_frame h).moves
  | liquidate borrower =>
    obtain ⟨price, mode, v, hl⟩ := liquidate_ok h
    exact liquidation_moves hdefault rfl hl
  | liquidateTroves n =>
    obtain ⟨price, mode, v, hl⟩ := liquidateTroves_ok h
    exact liquidation_moves hdefault rfl hl
  | batchLiquidateTroves troveArray =>
    obtain ⟨price, mode, v, hl⟩ := batchLiquidateTroves_ok h
    exact liquidation_moves hdefault rfl hl
  | redeemCollateral args => exact redeemCollateral_moves hc hdefault rfl h
  | provideToSP amount => exact (provideToSP_frame h).moves
  | withdrawFromSP amount => exact (withdrawFromSP_frame h).moves
  | withdrawWSTETHGainToTrove p n =>
    obtain ⟨pool, t, s₁, -, -, ht, rfl, h⟩ := withdrawWSTETHGainToTrove_ok h
    have hf : Frame s { s with stabilityPool := pool, wsteth := t } := .of_eq rfl rfl rfl
    refine hf.moves.trans (adjust_moves hf (Ne.symm c.ne.2.2.2.1) ?_ h)
    have hne : c.borrowerOperations ≠ c.stabilityPool :=
      fun e => c.borrowerOperations_notMem (by simp [Config.pools, e])
    have hreceived := ERC20.transfer_other ht hne
    rw [if_pos rfl] at hreceived
    have hcoll := (SamePosition.of_frame (a := sender.address) hf).settledColl
    simp only [adjustedColl, hcoll, hreceived, Nat.add_zero]
    rfl
  | transferSIM recipient amount =>
    obtain ⟨-, t, -, rfl⟩ := SIMToken.transfer_ok h
    exact .single (.frame (.of_eq rfl rfl rfl))
  | transferFromSIM src recipient amount =>
    obtain ⟨-, t, -, rfl⟩ := SIMToken.transferFrom_ok h
    exact .single (.frame (.of_eq rfl rfl rfl))
  | transferWSTETH recipient amount => exact (transferWSTETH_frame h).moves
  | transferFromWSTETH src recipient amount => exact (transferFromWSTETH_frame h).moves
  | approveSIM spender amount | approveWSTETH spender amount | mintWSTETH amount | burnWSTETH amount =>
    obtain ⟨t, -, h⟩ := bind_ok.1 h
    cases h
    exact .single (.frame (.of_eq rfl rfl rfl))

end SimContracts.Protocol
