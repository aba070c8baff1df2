/-
Global voting power over whole runs of the vote escrow: every call keeps the supply invariant of the locks in its state,
so at any time from the last checkpoint on the total supply is the sum of the voting powers of all NFTs.

The weekly fill makes at most 255 rounds. A checkpoint more than 255 week boundaries after the last one does not reach
the block, and a lock made then is added to a point that is too old; calls are assumed within that distance. A slope
that was recorded negative (a derived amount of 2^127 or more, cast to `int128`) is excluded too (`NoWrap`).

Results:
  totalSupply_eq_sum          total supply = sum of the powers, after every run, at every later time
  totalSupply_after_254_weeks two checkpoints between 254 and 255 weeks apart: the two differ
-/
import SimContracts.Ve.Calls
import SimContracts.Ve.History

namespace SimContracts.Ve

open Solidity Decay Search

variable {cfg : Config} {s s' s₁ s₂ : State} {env : Env}

/-! ## What the operations on NFTs and tokens leave alone -/

/-- same histories, schedule and ids -/
structure SameHistory (s s' : State) : Prop where
  tokenId : s'.tokenId = s.tokenId
  epoch : s'.epoch = s.epoch
  pointHistory : s'.pointHistory = s.pointHistory
  userPointEpoch : s'.userPointEpoch = s.userPointEpoch
  userPointHistory : s'.userPointHistory = s.userPointHistory
  slopeChanges : s'.slopeChanges = s.slopeChanges

/-- same locks -/
structure SameLocks (s s' : State) : Prop where
  amounts : s'.lockedAmounts = s.lockedAmounts
  derived : s'.lockedDerivedAmount = s.lockedDerivedAmount
  ends : s'.lockedEnd = s.lockedEnd

/-- same locks and histories: only ownership, approvals, tokens or governance data changed -/
structure Frame (s s' : State) : Prop where
  history : SameHistory s s'
  locks : SameLocks s s'

theorem SameHistory.trans (h : SameHistory s s₁) (h' : SameHistory s₁ s₂) : SameHistory s s₂ :=
  ⟨h'.tokenId.trans h.tokenId, h'.epoch.trans h.epoch, h'.pointHistory.trans h.pointHistory,
    h'.userPointEpoch.trans h.userPointEpoch, h'.userPointHistory.trans h.userPointHistory,
    h'.slopeChanges.trans h.slopeChanges⟩

theorem SameLocks.trans (h : SameLocks s s₁) (h' : SameLocks s₁ s₂) : SameLocks s s₂ :=
  ⟨h'.amounts.trans h.amounts, h'.derived.trans h.derived, h'.ends.trans h.ends⟩

theorem Frame.trans (h : Frame s s₁) (h' : Frame s₁ s₂) : Frame s s₂ :=
  ⟨h.history.trans h'.history, h.locks.trans h'.locks⟩

/-- a change that is none of these is a frame -/
theorem frame_rfl {erc20 tokens weights valid change owner approvals count list index operators white lock} :
    Frame s { s with
      erc20 := erc20, tokens := tokens, tokenWeights := weights, isValidToken := valid, ownershipChange := change,
      idToOwner := owner, idToApprovals := approvals, ownerToNFTokenCount := count, ownerToNFTokenIdList := list,
      tokenToOwnerIndex := index, ownerToOperators := operators, isWhitelistedTransfer := white,
      govActionTimeLock := lock } :=
  ⟨⟨rfl, rfl, rfl, rfl, rfl, rfl⟩, ⟨rfl, rfl, rfl⟩⟩

theorem Reowned.frame (h : Reowned s s') : Frame s s' := by
  obtain ⟨_, _, _, _, _, _, rfl⟩ := h
  exact frame_rfl

theorem Rebalanced.frame (h : Rebalanced s s') : Frame s s' := by
  obtain ⟨_, rfl⟩ := h
  exact frame_rfl

/-- a checkpoint does not touch the locks -/
theorem checkpointWith_locks {info : CheckpointInfo} (h : checkpointWith s env info = .ok s') :
    SameLocks s s' ∧ s'.tokenId = s.tokenId := by
  obtain ⟨_, _, _, _, _, rfl⟩ := checkpointWith_repointed h
  exact ⟨⟨rfl, rfl, rfl⟩, rfl⟩

theorem checkpointWith_extends {info : CheckpointInfo} (h : checkpointWith s env info = .ok s') :
    Extends env.timestamp s s' := by
  unfold checkpointWith at h
  split_ifs at h
  · exact checkpointGlobal_extends h
  · exact checkpointLock_extends h

/-- changes of locks and ids alone do not touch the histories -/
theorem extends_of_eq {now : ℕ} (h1 : s'.epoch = s.epoch) (h2 : s'.pointHistory = s.pointHistory)
    (h3 : s'.userPointEpoch = s.userPointEpoch) (h4 : s'.userPointHistory = s.userPointHistory) : Extends now s s' := by
  refine ⟨h1.ge, fun k _ => by rw [h2], fun i => by rw [h3], fun i k _ => by rw [h4], fun i k hk hk' => ?_⟩
  rw [h3] at hk'
  omega

theorem SameHistory.extends {now : ℕ} (h : SameHistory s s') : Extends now s s' :=
  extends_of_eq h.epoch h.pointHistory h.userPointEpoch h.userPointHistory

theorem SameHistory.fades {now : ℕ} (h : SameHistory s s') : Fades now s s' := by
  refine ⟨h.extends, fun i k h1 h2 => ?_⟩
  rw [h.userPointEpoch] at h2
  omega

theorem SameHistory.noWrap (h : SameHistory s s') (hw : NoWrap s') : NoWrap s := by
  intro i k hk
  rw [← h.userPointHistory]
  exact hw i k (h.userPointEpoch ▸ hk)

/-- a change of locks and its checkpoint -/
theorem relock_extends {info : CheckpointInfo} (hc : checkpointWith s₁ env info = .ok s₂) (h : SameHistory s s₁) :
    Extends env.timestamp s s₂ :=
  h.extends.trans (checkpointWith_extends hc)

/-- the checkpoint of a lock that is over records no power -/
theorem checkpointWith_fades {info : CheckpointInfo} (h : checkpointWith s env info = .ok s')
    (hover : info.newEnd ≤ env.timestamp) : Fades env.timestamp s s' := by
  refine ⟨checkpointWith_extends h, fun i k h1 h2 => ?_⟩
  unfold checkpointWith at h
  split_ifs at h
  · obtain ⟨f, -, hc⟩ := bind_ok.1 h
    cases hc
    exact absurd h2 (not_le.2 h1)
  · obtain ⟨_, uNew, _, _, _, _, -, hline, -, -, -, -, rfl⟩ := checkpointLock_ok h
    have hzero : uNew = (0, 0) := by
      rw [lockLine, if_neg fun hlive => absurd hlive.1 (not_lt.2 hover)] at hline
      exact (Except.ok.inj hline).symm
    have h2' : k ≤ Function.update s.userPointEpoch info.tokenId (s.userPointEpoch info.tokenId + 1) i := h2
    show (update2 s.userPointHistory info.tokenId _ _ i k).bias ≤ 0 ∧
      0 ≤ (update2 s.userPointHistory info.tokenId _ _ i k).slope
    by_cases hi : i = info.tokenId
    · subst hi
      rw [Function.update_self] at h2'
      obtain rfl : k = s.userPointEpoch info.tokenId + 1 := by omega
      simp [update2, hzero]
    · rw [Function.update_of_ne hi] at h2'
      omega

/-! ## The invariant of a state -/

/-- the supply invariant for the locks in the state, and that of the histories; ids not given out have no lock -/
structure Good (s : State) : Prop where
  supply : SupplyInv s s.lockedDerivedAmount s.lockedEnd
  history : HistoryInv s
  unlocked : ∀ i, i = 0 ∨ s.tokenId < i → s.lockedEnd i = 0 ∧ ∀ token, s.lockedAmounts i token = 0

theorem SameHistory.lastPoint (h : SameHistory s s') : lastPoint s' = lastPoint s := by
  rw [Ve.lastPoint, Ve.lastPoint, h.epoch, h.pointHistory]

theorem SameHistory.supply (h : SameHistory s s') {derived ends : ℕ → ℕ} (hs : SupplyInv s derived ends) :
    SupplyInv s' derived ends := by
  have hids : ids s' = ids s := by rw [ids, ids, h.tokenId]
  have huser : ∀ i, userPoint s' i = userPoint s i := fun i => by
    rw [userPoint, userPoint, h.userPointEpoch, h.userPointHistory]
  refine ⟨?_, hs.aligned, ?_, ?_, ?_, ?_, ?_, ?_⟩
  · rw [h.tokenId, h.userPointEpoch]
    exact hs.unused
  · rw [h.lastPoint]
    exact hs.ends_le
  · rw [hids, h.lastPoint]
    exact hs.onCurve
  · rw [hids, h.lastPoint, h.slopeChanges]
    exact hs.changes
  · simp only [huser, h.userPointEpoch, h.lastPoint]
    exact hs.users
  · rw [h.epoch]
    exact hs.start
  · rw [h.lastPoint]
    exact hs.fits

theorem SameHistory.historyInv (h : SameHistory s s') (hi : HistoryInv s) : HistoryInv s' := by
  have hpoint : ∀ t, pointAt s' t = pointAt s t := fun t => by rw [pointAt, pointAt, h.epoch, h.pointHistory]
  have hpower : ∀ i t, userPower s' i t = userPower s i t := fun i t => by
    rw [userPower, userPower, userPointAt, userPointAt, h.userPointEpoch, h.userPointHistory]
  have hids : ids s' = ids s := by rw [ids, ids, h.tokenId]
  refine ⟨?_, ?_, ?_, ?_, ?_⟩
  · rw [h.epoch, h.pointHistory]
    exact hi.sorted
  · rw [h.userPointEpoch, h.userPointHistory]
    exact hi.userSorted
  · rw [h.userPointHistory]
    exact hi.first
  · rw [h.pointHistory]
    exact hi.start
  · simp only [hpoint, hpower, hids, h.lastPoint]
    exact hi.balanced

theorem SameHistory.timely (h : SameHistory s s') (ht : Timely s env) : Timely s' env := by
  have hstart : startTs s' env = startTs s env := by rw [startTs, startTs, h.epoch, h.lastPoint]
  exact ⟨by rw [h.lastPoint]; exact ht.ordered, by rw [hstart]; exact ht.within⟩

theorem Frame.good (h : Frame s s') (hg : Good s) : Good s' := by
  constructor
  · rw [h.locks.derived, h.locks.ends]
    exact h.history.supply hg.supply
  · exact h.history.historyInv hg.history
  · rw [h.history.tokenId, h.locks.ends, h.locks.amounts]
    exact hg.unlocked

/-- an id with a lock has been given out -/
theorem Good.used_of_end (hg : Good s) {i : ℕ} (h : 0 < s.lockedEnd i) : i ≠ 0 ∧ i ≤ s.tokenId := by
  by_contra hcon
  have := (hg.unlocked i (by omega)).1
  omega

theorem Good.used_of_derived (hg : Good s) {i : ℕ} (h : 0 < s.lockedDerivedAmount i) : i ≠ 0 ∧ i ≤ s.tokenId := by
  by_contra hcon
  have := (hg.supply.unused i (by omega)).1
  omega

theorem Good.used_of_amount (hg : Good s) {i : ℕ} {token : Address} (h : 0 < s.lockedAmounts i token) :
    i ≠ 0 ∧ i ≤ s.tokenId := by
  by_contra hcon
  have := (hg.unlocked i (by omega)).2 token
  omega

/-- giving out a new id: it has no lock yet -/
theorem Good.nextId (hg : Good s) : Good { s with tokenId := s.tokenId + 1 } := by
  have hrate : rateOf s.lockedDerivedAmount (s.tokenId + 1) = 0 := by
    rw [rateOf, (hg.supply.unused _ (.inr (Nat.lt_succ_self _))).1, slopeOf_zero]
  have hids : ids { s with tokenId := s.tokenId + 1 } = insert (s.tokenId + 1) (ids s) := Finset.range_add_one
  have hnot : s.tokenId + 1 ∉ ids s := by simp [ids]
  have hw : ∀ T, weight (insert (s.tokenId + 1) (ids s)) (rateOf s.lockedDerivedAmount) s.lockedEnd T =
      weight (ids s) (rateOf s.lockedDerivedAmount) s.lockedEnd T := by
    intro T
    rw [weight, Finset.sum_insert hnot, hrate, zero_mul, zero_add, weight]
  have hl : ∀ T, liveRate (insert (s.tokenId + 1) (ids s)) (rateOf s.lockedDerivedAmount) s.lockedEnd T =
      liveRate (ids s) (rateOf s.lockedDerivedAmount) s.lockedEnd T := by
    intro T
    rw [liveRate, Finset.sum_insert hnot, hrate, ite_self, zero_add, liveRate]
  have he : ∀ T, endingRate (insert (s.tokenId + 1) (ids s)) (rateOf s.lockedDerivedAmount) s.lockedEnd T =
      endingRate (ids s) (rateOf s.lockedDerivedAmount) s.lockedEnd T := by
    intro T
    rw [endingRate, Finset.sum_insert hnot, hrate, ite_self, zero_add, endingRate]
  have hs := hg.supply
  have hi := hg.history
  refine ⟨⟨?_, hs.aligned, hs.ends_le, ?_, ?_, hs.users, hs.start, hs.fits⟩,
    ⟨hi.sorted, hi.userSorted, hi.first, hi.start, ?_⟩, ?_⟩
  · intro i hi
    have hi' : i = 0 ∨ s.tokenId + 1 < i := hi
    exact hs.unused i (by omega)
  · rw [hids]
    exact ⟨hs.onCurve.bias.trans (hw _).symm, hs.onCurve.slope.trans (hl _).symm⟩
  · intro w hlater
    rw [hids, he]
    exact hs.changes w hlater
  · intro w halign hle
    have hnone : userPower s (s.tokenId + 1) w = 0 :=
      hi.userPower_unused (hs.unused _ (.inr (Nat.lt_succ_self _))).2 w
    have hsum : ∑ i ∈ insert (s.tokenId + 1) (ids s), userPower s i w = ∑ i ∈ ids s, userPower s i w := by
      rw [Finset.sum_insert hnot, hnone, zero_add]
    rw [hids]
    exact (hi.balanced w halign hle).trans hsum.symm
  · intro i hi
    have hi' : i = 0 ∨ s.tokenId + 1 < i := hi
    exact hg.unlocked i (by omega)

/-! ## Changing a lock -/

/-- `s₁` is `s` with the lock of one NFT changed as the checkpoint says. The end told to the checkpoint may differ from
the one in the state where the lock has no power. -/
structure Relock (s s₁ : State) (env : Env) (info : CheckpointInfo) : Prop where
  history : SameHistory s s₁
  used : info.tokenId ≠ 0 ∧ info.tokenId ≤ s.tokenId
  oldDerived : s.lockedDerivedAmount info.tokenId = info.oldDerivedAmount
  oldEnd : s.lockedEnd info.tokenId = info.oldEnd ∨
    (info.oldDerivedAmount = 0 ∧ info.oldEnd % WEEK = 0 ∧ info.oldEnd ≤ (lastPoint s).ts + MAX_TIME)
  newEnd : info.newEnd % WEEK = 0 ∧ info.newEnd ≤ env.timestamp + MAX_TIME ∧
    (env.timestamp < info.newEnd → info.oldEnd ≤ info.newEnd)
  derived : s₁.lockedDerivedAmount = Function.update s.lockedDerivedAmount info.tokenId info.newDerivedAmount
  ends : s₁.lockedEnd = Function.update s.lockedEnd info.tokenId info.newEnd ∨
    (info.newDerivedAmount = 0 ∧ s₁.lockedEnd = Function.update s.lockedEnd info.tokenId 0)
  amounts : ∀ i token, i ≠ info.tokenId → s.lockedAmounts i token = 0 → s₁.lockedAmounts i token = 0

theorem Relock.good {info : CheckpointInfo} (hr : Relock s s₁ env info) (hc : checkpointWith s₁ env info = .ok s₂)
    (hw : NoWrap s₂) (ht : Timely s env) (hg : Good s) : Good s₂ ∧ Timely s₂ env := by
  obtain ⟨hlocks, htoken⟩ := checkpointWith_locks hc
  rw [checkpointWith, if_neg hr.used.1] at hc
  -- tell the invariant the old end the checkpoint is told
  have hsupply : SupplyInv s₁ s.lockedDerivedAmount (Function.update s.lockedEnd info.tokenId info.oldEnd) := by
    refine hr.history.supply ?_
    rcases hr.oldEnd with heq | ⟨h0, halign, hle⟩
    · rw [← heq, Function.update_eq_self]
      exact hg.supply
    · exact hg.supply.setEnd (hr.oldDerived.trans h0) halign hle
  obtain ⟨hinv, hts⟩ := checkpointLock_inv hsupply hw (hr.history.timely ht) hr.used.1 (hr.history.tokenId ▸ hr.used.2)
    hr.oldDerived (Function.update_self ..) hr.newEnd.1 hr.newEnd.2.1 hr.newEnd.2.2 hc
  have hhistory : HistoryInv s₂ := checkpoint_history (checkpointLock_checkpointed hc hts) hsupply
    (.of_extends (checkpointLock_extends hc) hw) hinv hw (hr.history.timely ht) (hr.history.historyInv hg.history)
  rw [Function.update_idem, ← hr.derived, ← hlocks.derived] at hinv
  refine ⟨⟨?_, hhistory, ?_⟩, timely_after hts⟩
  · rcases hr.ends with hends | ⟨h0, hends⟩
    · rwa [← hends, ← hlocks.ends] at hinv
    · have hzero : s₂.lockedDerivedAmount info.tokenId = 0 := by
        rw [hlocks.derived, hr.derived, Function.update_self, h0]
      have := hinv.setEnd hzero (Nat.zero_mod _) (Nat.zero_le _)
      rwa [Function.update_idem, ← hends, ← hlocks.ends] at this
  · intro i hi
    have hused := hr.used
    have hi' : i = 0 ∨ s.tokenId < i := by rwa [htoken, hr.history.tokenId] at hi
    have hne : i ≠ info.tokenId := by omega
    obtain ⟨h1, h2⟩ := hg.unlocked i hi'
    rw [hlocks.ends, hlocks.amounts]
    refine ⟨?_, fun token => hr.amounts i token hne (h2 token)⟩
    rcases hr.ends with hends | ⟨-, hends⟩ <;> rw [hends, Function.update_of_ne hne] <;> exact h1

/-- the deposit is told the lock as it is, and extends it if it changes its end -/
structure Deposits (s : State) (env : Env) (info : DepositInfo) : Prop where
  used : info.tokenId ≠ 0 ∧ info.tokenId ≤ s.tokenId
  derived : s.lockedDerivedAmount info.tokenId = info.lockedDerivedAmount
  oldEnd : s.lockedEnd info.tokenId = info.lockedEnd ∨
    (info.lockedDerivedAmount = 0 ∧ info.unlockTime ≠ 0 ∧ info.lockedEnd % WEEK = 0 ∧
      info.lockedEnd ≤ (lastPoint s).ts + MAX_TIME)
  unlock : info.unlockTime ≠ 0 →
    info.unlockTime % WEEK = 0 ∧ info.unlockTime ≤ env.timestamp + MAX_TIME ∧ info.lockedEnd ≤ info.unlockTime

theorem depositFor_good {info : DepositInfo} (h : depositFor cfg s env info = .ok s') (hd : Deposits s env info)
    (hw : NoWrap s') (ht : Timely s env) (hg : Good s) : Good s' ∧ Timely s' env := by
  obtain ⟨newDerived, s₁, hs⟩ := depositFor_steps h
  have hframe := (depositTokens_rebalanced hs.pulled).frame
  have hordered := ht.ordered
  have hrelock : Relock s (written s info newDerived) env ⟨info.tokenId, info.lockedDerivedAmount, newDerived,
      info.lockedEnd, if info.unlockTime ≠ 0 then info.unlockTime else info.lockedEnd⟩ := by
    refine ⟨⟨rfl, rfl, rfl, rfl, rfl, rfl⟩, hd.used, hd.derived, ?_, ?_, ?_, .inl ?_,
      fun i token hi h0 => (congrFun (written_others hi).1 token).trans h0⟩
    · exact hd.oldEnd.imp id fun ⟨h0, _, halign, hle⟩ => ⟨h0, halign, hle⟩
    · by_cases hu : info.unlockTime ≠ 0
      · obtain ⟨h1, h2, h3⟩ := hd.unlock hu
        simp only [if_pos hu]
        exact ⟨h1, h2, fun _ => h3⟩
      · have heq : s.lockedEnd info.tokenId = info.lockedEnd := by
          rcases hd.oldEnd with heq | ⟨-, hne, -⟩
          · exact heq
          · exact absurd hne hu
        have halign := hg.supply.aligned info.tokenId
        have hle := hg.supply.ends_le info.tokenId
        rw [heq] at halign hle
        simp only [if_neg hu]
        exact ⟨halign, by omega, fun _ => le_rfl⟩
    · by_cases hv : info.value ≠ 0
      · exact if_pos hv
      · refine (if_neg hv).trans ?_
        show s.lockedDerivedAmount = Function.update s.lockedDerivedAmount info.tokenId newDerived
        rw [hs.unchanged (not_not.1 hv), ← hd.derived, Function.update_eq_self]
    · unfold written
      by_cases hu : info.unlockTime ≠ 0
      · simp only [if_pos hu]
      · simp only [if_neg hu]
        rcases hd.oldEnd with heq | ⟨-, hne, -⟩
        · rw [← heq, Function.update_eq_self]
        · exact absurd hne hu
  obtain ⟨hg', ht'⟩ := hrelock.good hs.checked (hframe.history.noWrap hw) ht hg
  exact ⟨hframe.good hg', hframe.history.timely ht'⟩

/-- a deposit leaves the other locks and the ids alone -/
theorem depositFor_others {info : DepositInfo} (h : depositFor cfg s env info = .ok s') :
    Extends env.timestamp s s' ∧ s'.tokenId = s.tokenId ∧
      (∀ i, i ≠ info.tokenId → s'.lockedDerivedAmount i = s.lockedDerivedAmount i ∧ s'.lockedEnd i = s.lockedEnd i) ∧
      (info.unlockTime ≠ 0 → s'.lockedEnd info.tokenId = info.unlockTime) := by
  obtain ⟨derived, s₁, hs⟩ := depositFor_steps h
  have hwritten : SameHistory s (written s info derived) := ⟨rfl, rfl, rfl, rfl, rfl, rfl⟩
  have hframe := (depositTokens_rebalanced hs.pulled).frame
  obtain ⟨hlocks, htoken⟩ := checkpointWith_locks hs.checked
  refine ⟨(hwritten.extends.trans (checkpointWith_extends hs.checked)).trans hframe.history.extends, ?_, fun i hi => ?_,
    fun hu => ?_⟩
  · rw [hframe.history.tokenId, htoken, hwritten.tokenId]
  · rw [hframe.locks.derived, hlocks.derived, hframe.locks.ends, hlocks.ends]
    exact (written_others hi).2
  · have hend : (written s info derived).lockedEnd = Function.update s.lockedEnd info.tokenId info.unlockTime := if_pos hu
    rw [hframe.locks.ends, hlocks.ends, hend, Function.update_self]

/-! ## The operations on locks -/

theorem createLockFor_good {token dst : Address} {value d id : ℕ} {received : Res Bool}
    (h : createLockFor cfg s env token value d dst received = .ok (s', id)) :
    Extends env.timestamp s s' ∧ (NoWrap s' → Timely s env → Good s → Good s') := by
  obtain ⟨unlockTime, sb, hs⟩ := createLockFor_ok h
  have hframe := (mint_reowned hs.minted).frame
  have hid : Extends env.timestamp s { s with tokenId := s.tokenId + 1 } := extends_of_eq rfl rfl rfl rfl
  refine ⟨(hid.trans hframe.history.extends).trans (depositFor_others hs.deposited).1, fun hw ht hg => ?_⟩
  have hga : Good { s with tokenId := s.tokenId + 1 } := hg.nextId
  have hunused := hg.supply.unused (s.tokenId + 1) (.inr (Nat.lt_succ_self _))
  have hunlocked := hg.unlocked (s.tokenId + 1) (.inr (Nat.lt_succ_self _))
  refine (depositFor_good hs.deposited ⟨⟨Nat.succ_ne_zero _, ?_⟩, ?_, .inl ?_, fun _ => ?_⟩ hw
    (hframe.history.timely ⟨ht.ordered, ht.within⟩) (hframe.good hga)).1
  · exact hframe.history.tokenId.ge
  · exact (congrFun hframe.locks.derived _).trans hunused.1
  · exact (congrFun hframe.locks.ends _).trans hunlocked.1
  · exact ⟨hs.aligned, hs.near, Nat.zero_le _⟩

theorem increaseAmount_good {token : Address} {id value : ℕ} (h : increaseAmount cfg s env token id value = .ok s') :
    Extends env.timestamp s s' ∧ (NoWrap s' → Timely s env → Good s → Good s') := by
  have hs := increaseAmount_ok h
  refine ⟨(depositFor_others hs.deposited).1, fun hw ht hg => ?_⟩
  exact (depositFor_good hs.deposited ⟨hg.used_of_derived hs.power, rfl, .inl rfl, fun h0 => absurd rfl h0⟩ hw ht hg).1

theorem increaseUnlockTime_good {id d power date : ℕ} (h : increaseUnlockTime cfg s env id d = .ok (s', power, date)) :
    Extends env.timestamp s s' ∧ (NoWrap s' → Timely s env → Good s → Good s') := by
  obtain ⟨unlockTime, hs⟩ := increaseUnlockTime_ok h
  refine ⟨(depositFor_others hs.deposited).1, fun hw ht hg => ?_⟩
  exact (depositFor_good hs.deposited ⟨hg.used_of_derived hs.power, rfl, .inl rfl,
    fun _ => ⟨hs.aligned, hs.near, hs.later.le⟩⟩ hw ht hg).1

/-- writing an amount of an id that is in use -/
theorem Good.setAmount (hg : Good s) {id : ℕ} (hused : id ≠ 0 ∧ id ≤ s.tokenId) (token : Address) (amount : ℕ) :
    Good { s with lockedAmounts := update2 s.lockedAmounts id token amount } := by
  have hhist : SameHistory s { s with lockedAmounts := update2 s.lockedAmounts id token amount } :=
    ⟨rfl, rfl, rfl, rfl, rfl, rfl⟩
  refine ⟨hhist.supply hg.supply, hhist.historyInv hg.history, fun i hi => ?_⟩
  have hi' : i = 0 ∨ s.tokenId < i := hi
  obtain ⟨h1, h2⟩ := hg.unlocked i hi'
  refine ⟨h1, fun t => ?_⟩
  show update2 s.lockedAmounts id token amount i t = 0
  rw [update2_of_ne (by omega)]
  exact h2 t

/-- the token loop of a merge: deposits for `dst` only, which end with the lock end `lockEnd` -/
theorem mergeTokens_good {src dst lockEnd : ℕ} (hne : src ≠ dst) (tokens : List Address) {e : ℕ}
    (h : mergeTokens cfg env src dst lockEnd tokens s e = .ok s') :
    Extends env.timestamp s s' ∧ s'.tokenId = s.tokenId ∧ s'.lockedDerivedAmount src = s.lockedDerivedAmount src ∧
      s'.lockedEnd src = s.lockedEnd src ∧
      (NoWrap s' → Timely s env → Good s → 0 < s.lockedEnd src → 0 < s.lockedEnd dst → s.lockedEnd dst = e →
        e ≤ lockEnd → lockEnd % WEEK = 0 → lockEnd ≤ env.timestamp + MAX_TIME → Good s' ∧ Timely s' env) := by
  induction tokens generalizing s e with
  | nil =>
    cases h
    exact ⟨.refl _ _, rfl, rfl, rfl, fun _ ht hg _ _ _ _ _ _ => ⟨hg, ht⟩⟩
  | cons token rest ih =>
    rcases mergeTokens_cons h with ⟨-, h⟩ | ⟨sa, hround, h⟩
    · exact ih h
    · have ha := hround.deposited
      obtain ⟨hext, htok, hothers, hend⟩ := depositFor_others ha
      obtain ⟨hext', htok', hder', hend', hgood'⟩ := ih h
      obtain ⟨hder, hend_src⟩ := hothers src hne
      refine ⟨Extends.trans ⟨hext.1, hext.2, hext.3, hext.4, hext.5⟩ hext', htok'.trans htok, hder'.trans hder,
        hend'.trans hend_src, ?_⟩
      intro hw ht hg hpos_src hpos_dst hdst hle halign hmax
      have hused_src := hg.used_of_end hpos_src
      have hga := hg.setAmount hused_src token 0
      have hpos : lockEnd ≠ 0 := by omega
      obtain ⟨hgb, htb⟩ := depositFor_good ha
        ⟨hg.used_of_end hpos_dst, rfl, .inl hdst, fun _ => ⟨halign, hmax, hle⟩⟩ (.of_extends hext' hw)
        ⟨ht.ordered, ht.within⟩ hga
      have hdst' := hend hpos
      refine hgood' hw htb hgb ?_ ?_ hdst' le_rfl halign hmax
      · rw [hend_src]
        exact hpos_src
      · have : sa.lockedEnd dst = lockEnd := hdst'
        omega

theorem merge_good {src dst : ℕ} (h : merge cfg s env src dst = .ok s') :
    Extends env.timestamp s s' ∧ (NoWrap s' → Timely s env → Good s → Good s') := by
  obtain ⟨sa, sb, hne, hlive_src, hlive_dst, ha, hb, h⟩ := merge_ok h
  have hframe := (burn_reowned h).frame
  obtain ⟨hext, htok, hder, hend, hgood⟩ := mergeTokens_good hne s.tokens ha
  have hext' : Extends env.timestamp sa sb := relock_extends hb ⟨rfl, rfl, rfl, rfl, rfl, rfl⟩
  refine ⟨(hext.trans hext').trans hframe.history.extends, fun hw ht hg => ?_⟩
  have hwb : NoWrap sb := hframe.history.noWrap hw
  have hwa : NoWrap sa := .of_extends hext' hwb
  have hordered := ht.ordered
  have halign_src := hg.supply.aligned src
  have halign_dst := hg.supply.aligned dst
  have hle_src := hg.supply.ends_le src
  have hle_dst := hg.supply.ends_le dst
  have halign : max (s.lockedEnd src) (s.lockedEnd dst) % WEEK = 0 := by
    rcases max_choice (s.lockedEnd src) (s.lockedEnd dst) with heq | heq <;> rw [heq] <;> assumption
  obtain ⟨hga, hta⟩ := hgood hwa ht hg (by omega) (by omega) rfl (le_max_right _ _) halign (by omega)
  have hused := hg.used_of_end (i := src) (by omega)
  have hrelock : Relock sa { sa with
      lockedDerivedAmount := Function.update sa.lockedDerivedAmount src 0
      lockedEnd := Function.update sa.lockedEnd src 0 } env
      ⟨src, s.lockedDerivedAmount src, 0, s.lockedEnd src, s.lockedEnd src⟩ :=
    ⟨⟨rfl, rfl, rfl, rfl, rfl, rfl⟩, ⟨hused.1, htok.symm ▸ hused.2⟩, hder, .inl hend,
      ⟨halign_src, by dsimp only; omega, fun _ => le_rfl⟩, rfl, .inr ⟨rfl, rfl⟩, fun _ _ _ h0 => h0⟩
  exact hframe.good (hrelock.good hb hwb hta hga).1

theorem splitTokens_extends {id newId percent lockEnd : ℕ} (tokens : List Address) {d d' : ℕ}
    (h : splitTokens cfg env id newId percent lockEnd tokens s d = .ok (s', d')) : Extends env.timestamp s s' := by
  refine splitTokens_rel (R := fun a b => Extends env.timestamp a.1 b.1) (fun _ => .refl _ _) .trans (fun hround => ?_)
    tokens h
  have hext := (depositFor_others hround.deposited).1
  exact ⟨hext.1, hext.2, hext.3, hext.4, hext.5⟩

/-- the token loop of a split: deposits for the new NFT only, with the lock end of the one that is split -/
theorem splitTokens_good {id newId percent lockEnd : ℕ} (hne : id ≠ newId) (tokens : List Address) {d d' : ℕ}
    (h : splitTokens cfg env id newId percent lockEnd tokens s d = .ok (s', d')) :
    s'.tokenId = s.tokenId ∧ s'.lockedDerivedAmount id = s.lockedDerivedAmount id ∧
      s'.lockedEnd id = s.lockedEnd id ∧
      (NoWrap s' → Timely s env → Good s → newId ≠ 0 ∧ newId ≤ s.tokenId → 0 < lockEnd → s.lockedEnd id = lockEnd →
        s.lockedEnd newId = lockEnd ∨ s.lockedDerivedAmount newId = 0 → Good s' ∧ Timely s' env) := by
  induction tokens generalizing s d with
  | nil =>
    cases h
    exact ⟨rfl, rfl, rfl, fun _ ht hg _ _ _ _ => ⟨hg, ht⟩⟩
  | cons token rest ih =>
    rcases splitTokens_cons h with h | ⟨left, sa, hround, h⟩
    · exact ih h
    · have ha := hround.deposited
      obtain ⟨-, htok, hothers, hend⟩ := depositFor_others ha
      have hext' := splitTokens_extends rest h
      obtain ⟨htok', hder', hend', hgood'⟩ := ih h
      obtain ⟨hder, hend_id⟩ := hothers id hne
      refine ⟨htok'.trans htok, hder'.trans hder, hend'.trans hend_id, ?_⟩
      intro hw ht hg hnew hpos hlock hold
      have hordered := ht.ordered
      have halign := hg.supply.aligned id
      have hle := hg.supply.ends_le id
      rw [hlock] at halign hle
      have hused := hg.used_of_end (i := id) (by omega)
      have hga := hg.setAmount hused token (s.lockedAmounts id token - s.lockedAmounts id token * percent / (100 * 10 ^ 18))
      obtain ⟨hgb, htb⟩ := depositFor_good ha
        ⟨hnew, rfl, hold.imp_right fun h0 => ⟨h0, hpos.ne', halign, hle⟩, fun _ => ⟨halign, by dsimp only; omega, le_rfl⟩⟩
        (.of_extends hext' hw) ⟨ht.ordered, ht.within⟩ hga
      refine hgood' hw htb hgb ⟨hnew.1, htok.symm ▸ hnew.2⟩ hpos ?_ (.inl (hend hpos.ne'))
      rw [hend_id]
      exact hlock

theorem split_good {id percent : ℕ} {received : Res Bool} (h : split cfg s env id percent received = .ok s') :
    Extends env.timestamp s s' ∧ (NoWrap s' → Timely s env → Good s → Good s') := by
  obtain ⟨sb, sc, d, hlive, hb, hc, h⟩ := split_ok h
  have hframe := (mint_reowned hb).frame
  have hid : Extends env.timestamp s { s with tokenId := s.tokenId + 1 } := extends_of_eq rfl rfl rfl rfl
  have hext : Extends env.timestamp sc s' := relock_extends h ⟨rfl, rfl, rfl, rfl, rfl, rfl⟩
  refine ⟨((hid.trans hframe.history.extends).trans (splitTokens_extends sb.tokens hc)).trans hext, fun hw ht hg => ?_⟩
  have hused := hg.used_of_end (i := id) (by omega)
  obtain ⟨htok, hder, hend, hgood⟩ := splitTokens_good (by omega) sb.tokens hc
  have hwc : NoWrap sc := .of_extends hext hw
  have htoken : sb.tokenId = s.tokenId + 1 := hframe.history.tokenId
  have hends : ∀ i, sb.lockedEnd i = s.lockedEnd i := fun i => congrFun hframe.locks.ends i
  have hderived : ∀ i, sb.lockedDerivedAmount i = s.lockedDerivedAmount i := fun i => congrFun hframe.locks.derived i
  have hunused := hg.supply.unused (s.tokenId + 1) (.inr (Nat.lt_succ_self _))
  obtain ⟨hgc, htc⟩ := hgood hwc (hframe.history.timely ⟨ht.ordered, ht.within⟩) (hframe.good hg.nextId)
    ⟨Nat.succ_ne_zero _, htoken.ge⟩ (by omega) (hends id) (.inr ((hderived _).trans hunused.1))
  have hordered := ht.ordered
  have halign := hg.supply.aligned id
  have hle := hg.supply.ends_le id
  have hlock : sc.lockedEnd id = s.lockedEnd id := hend.trans (hends id)
  have hrelock : Relock sc { sc with lockedDerivedAmount := Function.update sc.lockedDerivedAmount id d } env
      ⟨id, s.lockedDerivedAmount id, d, s.lockedEnd id, s.lockedEnd id⟩ := by
    refine ⟨⟨rfl, rfl, rfl, rfl, rfl, rfl⟩, ⟨hused.1, ?_⟩, hder.trans (hderived id), .inl hlock,
      ⟨halign, by dsimp only; omega, fun _ => le_rfl⟩, rfl, .inl ?_, fun _ _ _ h0 => h0⟩
    · show id ≤ sc.tokenId
      omega
    · show sc.lockedEnd = Function.update sc.lockedEnd id (s.lockedEnd id)
      rw [← hlock, Function.update_eq_self]
  exact (hrelock.good h hw htc hgc).1

theorem withdraw_good {token : Address} {id : ℕ} (h : withdraw cfg s env token id = .ok s') :
    Fades env.timestamp s s' ∧ (NoWrap s' → Timely s env → Good s → Good s' ∧ Timely s' env) := by
  obtain ⟨d, sa, sb, hover, hamount, ha, hb, h⟩ := withdraw_ok h
  have hframe := (burnIfEmpty_reowned hb).frame.trans (transferUnderlyingToken_rebalanced h).frame
  have hfades : Fades env.timestamp s sa := by
    have hsame : SameHistory s { s with
        lockedEnd := Function.update s.lockedEnd id (if d = 0 then 0 else s.lockedEnd id)
        lockedDerivedAmount := Function.update s.lockedDerivedAmount id d
        lockedAmounts := update2 s.lockedAmounts id token 0 } := ⟨rfl, rfl, rfl, rfl, rfl, rfl⟩
    exact hsame.fades.trans (checkpointWith_fades ha ((keptEnd_le d _).trans hover))
  refine ⟨hfades.trans hframe.history.fades, fun hw ht hg => ?_⟩
  have hused := hg.used_of_amount hamount
  have hordered := ht.ordered
  have halign := hg.supply.aligned id
  have hle := hg.supply.ends_le id
  have hnew : (if d = 0 then 0 else s.lockedEnd id) % WEEK = 0 ∧ (if d = 0 then 0 else s.lockedEnd id) ≤ s.lockedEnd id := by
    split_ifs
    · exact ⟨Nat.zero_mod _, Nat.zero_le _⟩
    · exact ⟨halign, le_rfl⟩
  have hrelock : Relock s { s with
      lockedEnd := Function.update s.lockedEnd id (if d = 0 then 0 else s.lockedEnd id)
      lockedDerivedAmount := Function.update s.lockedDerivedAmount id d
      lockedAmounts := update2 s.lockedAmounts id token 0 } env
      ⟨id, s.lockedDerivedAmount id, d, s.lockedEnd id, if d = 0 then 0 else s.lockedEnd id⟩ := by
    refine ⟨⟨rfl, rfl, rfl, rfl, rfl, rfl⟩, hused, rfl, .inl rfl, ⟨hnew.1, ?_, ?_⟩, rfl, .inl rfl, fun i t hi h0 => ?_⟩
    · dsimp only
      omega
    · dsimp only
      omega
    · show update2 s.lockedAmounts id token 0 i t = 0
      rw [update2_of_ne hi]
      exact h0
  obtain ⟨hga, hta⟩ := hrelock.good ha (hframe.history.noWrap hw) ht hg
  exact ⟨hframe.good hga, hframe.history.timely hta⟩

theorem withdrawTokens_good {id : ℕ} (tokens : List Address) (h : withdrawTokens cfg env id tokens s = .ok s') :
    Fades env.timestamp s s' ∧ (NoWrap s' → Timely s env → Good s → Good s' ∧ Timely s' env) := by
  refine withdrawTokens_rel (R := fun s s' => Fades env.timestamp s s' ∧
    (NoWrap s' → Timely s env → Good s → Good s' ∧ Timely s' env)) (fun _ => ⟨.refl _ _, fun _ ht hg => ⟨hg, ht⟩⟩)
    (fun h h' => ⟨h.1.trans h'.1, fun hw ht hg => ?_⟩) withdraw_good tokens h
  obtain ⟨hg₁, ht₁⟩ := h.2 (.of_extends h'.1.grows hw) ht hg
  exact h'.2 hw ht₁ hg₁

theorem checkpoint_good (h : checkpoint s env = .ok s') :
    Fades env.timestamp s s' ∧
      (NoWrap s' → Timely s env → Good s → Good s' ∧ (lastPoint s').ts = env.timestamp) := by
  have hext := checkpointWith_extends h
  refine ⟨checkpointWith_fades h (Nat.zero_le _), fun hw ht hg => ?_⟩
  obtain ⟨hlocks, htoken⟩ := checkpointWith_locks h
  obtain ⟨hinv, hts⟩ := checkpointGlobal_inv hg.supply (.of_extends hext hw) ht h
  have hhistory : HistoryInv s' := checkpoint_history (checkpointGlobal_checkpointed h hts) hg.supply
    (.of_extends hext hw) hinv hw ht hg.history
  rw [← hlocks.derived, ← hlocks.ends] at hinv
  refine ⟨⟨hinv, hhistory, ?_⟩, hts⟩
  rw [htoken, hlocks.ends, hlocks.amounts]
  exact hg.unlocked

/-! ## Whole runs -/

/-- the calls that run `_checkpoint` -/
def Call.checkpoints : Call → Bool
  | .createLockFor .. | .createLock .. | .increaseAmount .. | .increaseUnlockTime .. | .merge .. | .split ..
  | .withdraw .. | .withdrawAll .. | .checkpoint => true
  | _ => false

/-- the call is not before the last checkpoint; if it runs `_checkpoint`, the block is at most 255 weeks after the start
of the week of the last checkpoint -/
def InTime (s : State) (c : Env × Call) : Prop :=
  (lastPoint s).ts ≤ c.1.timestamp ∧
    (c.2.checkpoints = true → c.1.timestamp ≤ startTs s c.1 / WEEK * WEEK + 255 * WEEK)

/-- the calls without a checkpoint do not touch the locks and histories -/
theorem exec_frame {call : Call} (hc : call.checkpoints = false) (h : exec cfg s env call = .ok s') : Frame s s' := by
  unfold exec at h
  cases call with
  | safeTransferFrom src dst id received => exact (safeTransferFrom_reowned h).frame
  | approve approved id => exact (approve_reowned h).frame
  | setApprovalForAll operator approved =>
    simp only [setApprovalForAll, require_bind, pure_ok] at h
    obtain ⟨-, rfl⟩ := h
    exact frame_rfl
  | announceAction type =>
    simp only [announceAction, require_bind, uadd_bind, pure_ok] at h
    obtain ⟨-, -, -, rfl⟩ := h
    exact frame_rfl
  | whitelistTransferFor value =>
    simp only [whitelistTransferFor, require_bind, pure_ok] at h
    obtain ⟨-, -, -, rfl⟩ := h
    exact frame_rfl
  | addToken token weight =>
    simp only [addToken, require_bind, pure_ok] at h
    obtain ⟨-, -, -, -, -, rfl⟩ := h
    exact frame_rfl
  | tokenTransfer token dst amount =>
    obtain ⟨-, h⟩ := require_bind.1 h
    obtain ⟨_, -, ⟨⟩⟩ := bind_ok.1 h
    exact frame_rfl
  | tokenTransferFrom token src dst amount =>
    obtain ⟨-, h⟩ := require_bind.1 h
    obtain ⟨_, -, ⟨⟩⟩ := bind_ok.1 h
    exact frame_rfl
  | tokenApprove token spender amount =>
    obtain ⟨-, h⟩ := require_bind.1 h
    obtain ⟨_, -, ⟨⟩⟩ := bind_ok.1 h
    exact frame_rfl
  | _ => exact absurd hc (by simp [Call.checkpoints])

/-- the calls that can give power to an NFT -/
def Call.locks : Call → Bool
  | .createLockFor .. | .createLock .. | .increaseAmount .. | .increaseUnlockTime .. | .merge .. | .split .. => true
  | _ => false

/-- every call lets the histories grow, and those that change no lock record no power -/
theorem exec_extends {call : Call} (h : exec cfg s env call = .ok s') :
    Extends env.timestamp s s' ∧ (call.locks = false → Fades env.timestamp s s') := by
  have hlock : ∀ {c : Call} {s'}, c.locks = true → Extends env.timestamp s s' →
      Extends env.timestamp s s' ∧ (c.locks = false → Fades env.timestamp s s') :=
    fun h1 h2 => ⟨h2, fun h3 => absurd (h1.symm.trans h3) (by decide)⟩
  have hother : ∀ {c : Call} {s'}, Fades env.timestamp s s' →
      Extends env.timestamp s s' ∧ (c.locks = false → Fades env.timestamp s s') := fun h1 => ⟨h1.grows, fun _ => h1⟩
  cases call with
  | createLockFor token value d dst received =>
    obtain ⟨⟨_, id⟩, h1, ⟨⟩⟩ := bind_ok.1 h
    exact hlock rfl (createLockFor_good h1).1
  | createLock token value d received =>
    obtain ⟨⟨_, id⟩, h1, ⟨⟩⟩ := bind_ok.1 h
    exact hlock rfl (createLockFor_good h1).1
  | increaseAmount token id value => exact hlock rfl (increaseAmount_good h).1
  | increaseUnlockTime id d =>
    obtain ⟨⟨_, power, date⟩, h1, ⟨⟩⟩ := bind_ok.1 h
    exact hlock rfl (increaseUnlockTime_good h1).1
  | merge src dst => exact hlock rfl (merge_good h).1
  | split id percent received => exact hlock rfl (split_good h).1
  | withdraw token id => exact hother (withdraw_good h).1
  | withdrawAll id => exact hother (withdrawTokens_good _ h).1
  | checkpoint => exact hother (checkpoint_good h).1
  | _ => exact hother (exec_frame rfl h).history.fades

theorem exec_good {c : Env × Call} (hg : Good s) (ht : InTime s c) (hw : NoWrap s') (h : execIn cfg s c = .ok s') :
    Good s' := by
  obtain ⟨env, call⟩ := c
  change exec cfg s env call = .ok s' at h
  cases call with
  | createLockFor token value d dst received =>
    obtain ⟨⟨_, id⟩, h1, ⟨⟩⟩ := bind_ok.1 h
    exact (createLockFor_good h1).2 hw ⟨ht.1, ht.2 rfl⟩ hg
  | createLock token value d received =>
    obtain ⟨⟨_, id⟩, h1, ⟨⟩⟩ := bind_ok.1 h
    exact (createLockFor_good h1).2 hw ⟨ht.1, ht.2 rfl⟩ hg
  | increaseAmount token id value => exact (increaseAmount_good h).2 hw ⟨ht.1, ht.2 rfl⟩ hg
  | increaseUnlockTime id d =>
    obtain ⟨⟨_, power, date⟩, h1, ⟨⟩⟩ := bind_ok.1 h
    exact (increaseUnlockTime_good h1).2 hw ⟨ht.1, ht.2 rfl⟩ hg
  | merge src dst => exact (merge_good h).2 hw ⟨ht.1, ht.2 rfl⟩ hg
  | split id percent received => exact (split_good h).2 hw ⟨ht.1, ht.2 rfl⟩ hg
  | withdraw token id => exact ((withdraw_good h).2 hw ⟨ht.1, ht.2 rfl⟩ hg).1
  | withdrawAll id => exact ((withdrawTokens_good _ h).2 hw ⟨ht.1, ht.2 rfl⟩ hg).1
  | checkpoint => exact ((checkpoint_good h).2 hw ⟨ht.1, ht.2 rfl⟩ hg).1
  | _ => exact (exec_frame rfl h).good hg

theorem deploy_good (env : Env) (erc20 : Address → ERC20) (shady : Address) : Good (deploy env erc20 shady) := by
  have hlast : lastPoint (deploy env erc20 shady) = ⟨0, 0, env.timestamp, env.number⟩ := by
    simp [lastPoint, deploy]
  have hrate : ∀ i, rateOf (deploy env erc20 shady).lockedDerivedAmount i = 0 := fun _ => slopeOf_zero
  refine ⟨⟨fun _ _ => ⟨rfl, rfl⟩, fun _ => rfl, fun _ => Nat.zero_le _, ⟨?_, ?_⟩, ?_, fun _ => .inl ⟨rfl, rfl⟩,
    fun _ _ => rfl, ?_⟩, ⟨?_, fun _ _ _ _ _ => le_rfl, fun _ => rfl, ⟨rfl, rfl⟩, ?_⟩, fun _ _ => ⟨rfl, fun _ => rfl⟩⟩
  · simp [hlast, weight, hrate]
  · simp [hlast, liveRate, hrate]
  · intro w _
    show (0 : ℤ) = -endingRate _ _ _ w
    simp [endingRate, hrate]
  · have hzero : IsInt128 0 := by decide
    rw [hlast]
    exact ⟨hzero, hzero⟩
  · intro j k hjk hk
    obtain rfl : k = 0 := Nat.le_zero.1 hk
    rw [Nat.le_zero.1 hjk]
  · intro w _ _
    have hpoint : pointAt (deploy env erc20 shady) w = lastPoint (deploy env erc20 shady) := rfl
    have hpower : ∀ i, userPower (deploy env erc20 shady) i w = powerOf ⟨0, 0, 0, 0⟩ w := fun _ => rfl
    simp [hpoint, hpower, hlast, powerOf, positiveInt128]

/-- the total power of the locks, as the sum of what the views show of each -/
theorem weight_toNat_eq {derived ends : ℕ → ℕ} (h : SupplyInv s derived ends) (hw : NoWrap s) {t : ℕ}
    (hle : (lastPoint s).ts ≤ t) : (weight (ids s) (rateOf derived) ends t).toNat =
      ∑ i ∈ ids s, (rateOf derived i * ((ends i - t : ℕ) : ℤ)).toNat := by
  have hterm : ∀ i ∈ ids s, 0 ≤ rateOf derived i * ((ends i - t : ℕ) : ℤ) := by
    intro i hi
    by_cases hlive : t < ends i
    · exact mul_nonneg ((h.scheduled hw).nonneg i hi (by omega)) (by positivity)
    · rw [Nat.sub_eq_zero_of_le (not_lt.1 hlive)]
      simp
  have hcast : ((∑ i ∈ ids s, (rateOf derived i * ((ends i - t : ℕ) : ℤ)).toNat : ℕ) : ℤ) =
      weight (ids s) (rateOf derived) ends t := by
    rw [Nat.cast_sum, weight]
    exact Finset.sum_congr rfl fun i hi => Int.toNat_of_nonneg (hterm i hi)
  omega

/-- the state after a run whose successful calls are in time is good, if nothing has wrapped up to it -/
theorem run_good (env₀ : Env) (erc20 : Address → ERC20) (shady : Address) {calls : List (Env × Call)}
    (hcalls : AlongOk (execIn cfg) InTime (deploy env₀ erc20 shady) calls)
    (hwrap : NoWrap (run (execIn cfg) (deploy env₀ erc20 shady) calls)) :
    Good (run (execIn cfg) (deploy env₀ erc20 shady) calls) := by
  refine run_inv_ok (execIn cfg) (I := fun s => NoWrap s → Good s) ?_ _ calls
    (fun _ => deploy_good env₀ erc20 shady) hcalls hwrap
  intro s c s' ih htime h hw'
  -- histories only grow, so nothing had wrapped before
  exact exec_good (ih (.of_extends (exec_extends h).1 hw')) htime hw' h

/-- **Voting power adds up.** After every run whose successful calls are in time and wrap no amount, at every time `t` from
the last checkpoint on at which no decay overflows, the total supply is the sum over all NFTs of their voting power. -/
theorem totalSupply_eq_sum (cfg : Config) (env₀ : Env) (erc20 : Address → ERC20) (shady : Address)
    (calls : List (Env × Call)) (hcalls : AlongOk (execIn cfg) InTime (deploy env₀ erc20 shady) calls)
    (hwrap : NoWrap (run (execIn cfg) (deploy env₀ erc20 shady) calls)) (t : ℕ)
    (hle : (lastPoint (run (execIn cfg) (deploy env₀ erc20 shady) calls)).ts ≤ t) (ht : t < 2 ^ 127)
    (hfit : ∀ i, (userPoint (run (execIn cfg) (deploy env₀ erc20 shady) calls) i).slope * t < 2 ^ 127) :
    let s := run (execIn cfg) (deploy env₀ erc20 shady) calls
    totalSupplyAtT s t = .ok (∑ i ∈ Finset.range (s.tokenId + 1), (balanceOfNFTAt s i t).shown) ∧
      ∀ i, ∃ b, balanceOfNFTAt s i t = .ok b ∧ (s.tokenId < i → b = 0) := by
  intro s
  have hw : NoWrap s := hwrap
  have hg : Good s := run_good env₀ erc20 shady hcalls hw
  have hbalance : ∀ i, balanceOfNFTAt s i t =
      .ok (rateOf s.lockedDerivedAmount i * ((s.lockedEnd i - t : ℕ) : ℤ)).toNat :=
    fun i => balanceOfNFTAt_eq hg.supply hw hle ht i (hfit i)
  refine ⟨?_, fun i => ⟨_, hbalance i, fun hi => ?_⟩⟩
  · rw [totalSupplyAtT_eq hg.supply hw hle ht, weight_toNat_eq hg.supply hw hle]
    simp only [hbalance, Res.shown, ids]
  · rw [rateOf, (hg.supply.unused i (.inr hi)).1, slopeOf_zero]
    simp

/-! ### A lock, and a lock after 254 weeks -/

def exampleConfig : Config := ⟨50, fun _ => 18, fun _ => true⟩

def exampleEnv (t : ℕ) : Env := ⟨t, t / 12, 1, 99⟩

/-- account 1 holds SHADY, token 7, and lets the contract take it -/
def exampleTokens : Address → ERC20 := fun _ =>
  { balanceOf := fun a => if a = 1 then 10 ^ 25 else 0
    allowance := fun a b => if a = 1 ∧ b = 50 then 10 ^ 25 else 0
    totalSupply := 10 ^ 25 }

/-- the contract has approved nobody -/
theorem exampleTokens_fresh (token spender : Address) :
    (exampleTokens token).allowance exampleConfig.self spender = 0 := by
  show (if exampleConfig.self = 1 ∧ spender = 50 then 10 ^ 25 else 0) = 0
  rw [if_neg fun h => absurd h.1 (by decide)]

def exampleDeploy : State := deploy (exampleEnv (100 * WEEK)) exampleTokens 7

def oneLock : Env × Call := (exampleEnv (100 * WEEK + 5), .createLock 7 (10 ^ 24) (4 * WEEK) (.ok true))

/-- the slopes where only the first NFT has a recorded point -/
theorem slope_of_onePoint {points : ℕ → ℕ → Point} {p : Point} (h : points = update2 (fun _ _ => ⟨0, 0, 0, 0⟩) 1 1 p)
    (i k : ℕ) : (points i k).slope = if i = 1 ∧ k = 1 then p.slope else 0 := by
  rw [h, update2]
  by_cases hi : i = 1
  · subst hi
    by_cases hk : k = 1 <;> simp [hk]
  · simp [hi]

theorem oneLock_points :
    let s := run (execIn exampleConfig) exampleDeploy [oneLock]
    ∀ i k, (s.userPointHistory i k).slope = if i = 1 ∧ k = 1 then (userPoint s 1).slope else 0 :=
  slope_of_onePoint rfl

theorem oneLock_noWrap : NoWrap (run (execIn exampleConfig) exampleDeploy [oneLock]) := by
  intro i k _
  rw [oneLock_points]
  split_ifs
  · decide +kernel
  · exact le_rfl

theorem totalSupply_oneLock :
    let s := run (execIn exampleConfig) exampleDeploy [oneLock]
    let t := 101 * WEEK
    totalSupplyAtT s t = .ok (∑ i ∈ Finset.range (s.tokenId + 1), (balanceOfNFTAt s i t).shown) ∧
      ∀ i, ∃ b, balanceOfNFTAt s i t = .ok b ∧ (s.tokenId < i → b = 0) := by
  have hslope := oneLock_points
  apply totalSupply_eq_sum exampleConfig (exampleEnv (100 * WEEK)) exampleTokens 7 [oneLock]
  · exact ⟨fun _ => ⟨by decide, fun _ => by decide +kernel⟩, trivial⟩
  · exact oneLock_noWrap
  · decide +kernel
  · decide +kernel
  · intro i
    change (userPoint (run (execIn exampleConfig) exampleDeploy [oneLock]) i).slope * _ < _
    rw [userPoint, hslope]
    split_ifs
    · decide +kernel
    · decide +kernel

/-- The fill loop makes 255 rounds from the start of the week of the last checkpoint. A lock 254 weeks and two seconds
after a checkpoint in the last second of a week finds a history that is filled up to one second ago only, and is added
to that older point. -/
theorem totalSupply_after_254_weeks :
    let calls : List (Env × Call) :=
      [(exampleEnv (101 * WEEK - 1), .checkpoint),
       (exampleEnv (355 * WEEK + 1), .createLock 7 (10 ^ 24) (4 * WEEK) (.ok true))]
    let s := run (execIn exampleConfig) exampleDeploy calls
    let t := 355 * WEEK + 1
    t < 101 * WEEK - 1 + 255 * WEEK ∧ (lastPoint s).ts ≤ t ∧ s.tokenId = 1 ∧ (userPoint s 1).ts = t ∧
      (totalSupplyAtT s t).shown ≠ ∑ i ∈ Finset.range (s.tokenId + 1), (balanceOfNFTAt s i t).shown := by
  decide +kernel

end SimContracts.Ve
