/-
What a successful call does, read off the code once: the functions on ownership change nothing else (`Reowned`), a
checkpoint only the recorded points (`Repointed`), a payment only balances (`Rebalanced`), a deposit none of the owners
(`Relocked`). Each operation on locks has one inversion lemma with its guards and its steps: `depositFor_steps` for a
deposit, `mergeTokens_cons` and `splitTokens_cons` for a round of a loop, `createLockFor_ok` to `withdraw_ok` for the
calls. What a round keeps, its loop keeps (`mergeTokens_rel`, `splitTokens_rel`, `withdrawTokens_rel`). The invariants of
the later modules are derived from these.
-/
import SimContracts.Ve.Model

namespace SimContracts.Ve

open Solidity

variable {cfg : Config} {s s' s₁ s₂ : State} {env : Env}

/-! ## Ownership -/

/-- only the owners of NFTs, their lists and the approvals of single NFTs changed -/
def Reowned (s s' : State) : Prop :=
  ∃ change owner approvals count list index, s' = { s with
    ownershipChange := change, idToOwner := owner, idToApprovals := approvals, ownerToNFTokenCount := count,
    ownerToNFTokenIdList := list, tokenToOwnerIndex := index }

theorem Reowned.refl (s : State) : Reowned s s := ⟨_, _, _, _, _, _, rfl⟩

theorem Reowned.trans (h : Reowned s s₁) (h' : Reowned s₁ s₂) : Reowned s s₂ := by
  obtain ⟨_, _, _, _, _, _, rfl⟩ := h
  obtain ⟨_, _, _, _, _, _, rfl⟩ := h'
  exact ⟨_, _, _, _, _, _, rfl⟩

theorem addTokenTo_reowned {dst : Address} {id : ℕ} (h : addTokenTo s dst id = .ok s') : Reowned s s' := by
  simp only [addTokenTo, addTokenToOwnerList, uadd_bind, pure_ok] at h
  obtain ⟨-, rfl⟩ := h
  exact ⟨_, _, _, _, _, _, rfl⟩

theorem removeTokenFromOwnerList_reowned {src : Address} {id : ℕ} (h : removeTokenFromOwnerList s src id = .ok s') :
    Reowned s s' := by
  simp only [removeTokenFromOwnerList, usub_bind] at h
  obtain ⟨-, h⟩ := h
  split_ifs at h
  · cases h
    exact ⟨_, _, _, _, _, _, rfl⟩
  · cases h
    exact ⟨_, _, _, _, _, _, rfl⟩

theorem removeTokenFrom_reowned {src : Address} {id : ℕ} (h : removeTokenFrom s src id = .ok s') : Reowned s s' := by
  simp only [removeTokenFrom, require_bind] at h
  obtain ⟨-, h⟩ := h
  obtain ⟨s₁, h1, h⟩ := bind_ok.1 h
  simp only [usub_bind, pure_ok] at h
  obtain ⟨-, rfl⟩ := h
  have hbefore : Reowned s { s with idToOwner := Function.update s.idToOwner id 0 } := ⟨_, _, _, _, _, _, rfl⟩
  exact (hbefore.trans (removeTokenFromOwnerList_reowned h1)).trans ⟨_, _, _, _, _, _, rfl⟩

theorem approve_reowned {approved : Address} {id : ℕ} (h : approve s env approved id = .ok s') : Reowned s s' := by
  simp only [approve, require_bind, pure_ok] at h
  obtain ⟨-, -, -, rfl⟩ := h
  exact ⟨_, _, _, _, _, _, rfl⟩

theorem burn_reowned {id : ℕ} (h : burn s env id = .ok s') : Reowned s s' := by
  obtain ⟨s₁, h1, h2⟩ := bind_ok.1 h
  exact (approve_reowned h1).trans (removeTokenFrom_reowned h2)

/-- an NFT without power left is burned -/
theorem burnIfEmpty_reowned {id d : ℕ} (h : burnIfEmpty s env id d = .ok s') : Reowned s s' := by
  unfold burnIfEmpty at h
  split_ifs at h
  · exact burn_reowned h
  · cases h
    exact .refl s

theorem mint_reowned {dst : Address} {id : ℕ} {received : Res Bool} (h : mint s dst id received = .ok s') :
    Reowned s s' := by
  simp only [mint, require_bind] at h
  obtain ⟨-, h⟩ := h
  obtain ⟨s₁, h1, h⟩ := bind_ok.1 h
  obtain ⟨answer, -, h⟩ := bind_ok.1 h
  simp only [require_bind, pure_ok] at h
  obtain ⟨-, rfl⟩ := h
  exact addTokenTo_reowned h1

theorem transferFrom_reowned {src dst : Address} {id : ℕ} (h : transferFrom s env src dst id = .ok s') :
    Reowned s s' := by
  simp only [transferFrom, require_bind] at h
  obtain ⟨-, -, h⟩ := h
  obtain ⟨s₁, h1, h⟩ := bind_ok.1 h
  obtain ⟨s₂, h2, h⟩ := bind_ok.1 h
  cases h
  have hbefore : Reowned s { s with idToApprovals := Function.update s.idToApprovals id 0 } := ⟨_, _, _, _, _, _, rfl⟩
  have hmoved := (removeTokenFrom_reowned h1).trans (addTokenTo_reowned h2)
  exact (hbefore.trans hmoved).trans ⟨_, _, _, _, _, _, rfl⟩

theorem safeTransferFrom_reowned {src dst : Address} {id : ℕ} {received : Res Bool}
    (h : safeTransferFrom s env src dst id received = .ok s') : Reowned s s' := by
  simp only [safeTransferFrom, require_bind] at h
  obtain ⟨-, h⟩ := h
  obtain ⟨s₁, h1, h⟩ := bind_ok.1 h
  obtain ⟨answer, -, h⟩ := bind_ok.1 h
  simp only [require_bind, pure_ok] at h
  obtain ⟨-, rfl⟩ := h
  exact transferFrom_reowned h1

/-! ## Checkpoints, tokens and locks -/

/-- what the checkpoint of a lock computes and writes -/
theorem checkpointLock_ok {info : CheckpointInfo} (h : checkpointLock s env info = .ok s') :
    ∃ uOld uNew f p sc₁ sc₂, lockLine env.timestamp info.oldDerivedAmount info.oldEnd = .ok uOld ∧
      lockLine env.timestamp info.newDerivedAmount info.newEnd = .ok uNew ∧ fillHistory s env = .ok f ∧
      addLock f.lastPoint uOld uNew = .ok p ∧
      rescheduleOld s.slopeChanges env.timestamp info uOld.1 uNew.1 = .ok sc₁ ∧
      scheduleNew sc₁ env.timestamp info uNew.1 (if info.newEnd ≠ 0 then s.slopeChanges info.newEnd else 0) = .ok sc₂ ∧
      s' = { s with
        epoch := f.epoch
        pointHistory := Function.update f.pointHistory f.epoch p
        slopeChanges := sc₂
        userPointEpoch := Function.update s.userPointEpoch info.tokenId (s.userPointEpoch info.tokenId + 1)
        userPointHistory := update2 s.userPointHistory info.tokenId (s.userPointEpoch info.tokenId + 1)
          { slope := uNew.1, bias := uNew.2, ts := env.timestamp, blk := env.number } } := by
  unfold checkpointLock at h
  obtain ⟨uOld, hold, h⟩ := bind_ok.1 h
  obtain ⟨uNew, hnew, h⟩ := bind_ok.1 h
  obtain ⟨f, hf, h⟩ := bind_ok.1 h
  obtain ⟨p, hp, h⟩ := bind_ok.1 h
  obtain ⟨sc₁, h1, h⟩ := bind_ok.1 h
  obtain ⟨sc₂, h2, h⟩ := bind_ok.1 h
  simp only [uadd_bind, inBounds_bind, pure_ok] at h
  obtain ⟨-, -, rfl⟩ := h
  exact ⟨uOld, uNew, f, p, sc₁, sc₂, hold, hnew, hf, hp, h1, h2, rfl⟩

/-- only the recorded points and the slope changes changed -/
def Repointed (s s' : State) : Prop :=
  ∃ epoch points userPoints userEpochs changes, s' = { s with
    epoch := epoch, pointHistory := points, userPointHistory := userPoints, userPointEpoch := userEpochs,
    slopeChanges := changes }

theorem checkpointWith_repointed {info : CheckpointInfo} (h : checkpointWith s env info = .ok s') : Repointed s s' := by
  unfold checkpointWith at h
  split_ifs at h
  · obtain ⟨f, -, h⟩ := bind_ok.1 h
    cases h
    exact ⟨_, _, _, _, _, rfl⟩
  · obtain ⟨_, _, _, _, _, _, -, -, -, -, -, -, rfl⟩ := checkpointLock_ok h
    exact ⟨_, _, _, _, _, rfl⟩

/-- only balances and allowances of tokens changed -/
def Rebalanced (s s' : State) : Prop := ∃ erc20, s' = { s with erc20 := erc20 }

theorem depositTokens_rebalanced {info : DepositInfo} (h : depositTokens cfg s env info = .ok s') : Rebalanced s s' := by
  unfold depositTokens at h
  split_ifs at h
  · obtain ⟨t, -, h⟩ := bind_ok.1 h
    cases h
    exact ⟨_, rfl⟩
  · cases h
    exact ⟨_, rfl⟩

theorem transferUnderlyingToken_rebalanced {token recipient : Address} {amount : ℕ}
    (h : transferUnderlyingToken cfg s token recipient amount = .ok s') : Rebalanced s s' := by
  obtain ⟨t, -, h⟩ := bind_ok.1 h
  cases h
  exact ⟨_, rfl⟩

/-- only tokens, locks and histories changed -/
def Relocked (s s' : State) : Prop :=
  ∃ erc20 amounts derived ends epoch points userPoints userEpochs changes, s' = { s with
    erc20 := erc20, lockedAmounts := amounts, lockedDerivedAmount := derived, lockedEnd := ends, epoch := epoch,
    pointHistory := points, userPointHistory := userPoints, userPointEpoch := userEpochs, slopeChanges := changes }

theorem Relocked.refl (s : State) : Relocked s s := ⟨_, _, _, _, _, _, _, _, _, rfl⟩

theorem Relocked.trans (h : Relocked s s₁) (h' : Relocked s₁ s₂) : Relocked s s₂ := by
  obtain ⟨_, _, _, _, _, _, _, _, _, rfl⟩ := h
  obtain ⟨_, _, _, _, _, _, _, _, _, rfl⟩ := h'
  exact ⟨_, _, _, _, _, _, _, _, _, rfl⟩

/-- a lock rewritten -/
theorem relocked_lock (s : State) (amounts : ℕ → Address → ℕ) (derived ends : ℕ → ℕ) :
    Relocked s { s with lockedAmounts := amounts, lockedDerivedAmount := derived, lockedEnd := ends } :=
  ⟨_, _, _, _, _, _, _, _, _, rfl⟩

theorem Repointed.relocked (h : Repointed s s') : Relocked s s' := by
  obtain ⟨_, _, _, _, _, rfl⟩ := h
  exact ⟨_, _, _, _, _, _, _, _, _, rfl⟩

theorem Rebalanced.relocked (h : Rebalanced s s') : Relocked s s' := by
  obtain ⟨_, rfl⟩ := h
  exact ⟨_, _, _, _, _, _, _, _, _, rfl⟩

theorem checkpointWith_relocked {info : CheckpointInfo} (h : checkpointWith s env info = .ok s') : Relocked s s' :=
  (checkpointWith_repointed h).relocked

/-! ## Operations on locks -/

/-- the lock a deposit writes: the amounts if a value is deposited, the end if one is given -/
def written (s : State) (info : DepositInfo) (derived : ℕ) : State :=
  { s with
    lockedAmounts := if info.value ≠ 0 then
      update2 s.lockedAmounts info.tokenId info.stakingToken (info.lockedAmount + info.value) else s.lockedAmounts
    lockedDerivedAmount := if info.value ≠ 0 then Function.update s.lockedDerivedAmount info.tokenId derived
      else s.lockedDerivedAmount
    lockedEnd := if info.unlockTime ≠ 0 then Function.update s.lockedEnd info.tokenId info.unlockTime else s.lockedEnd }

/-- the other locks stay as they are -/
theorem written_others {info : DepositInfo} {derived i : ℕ} (hi : i ≠ info.tokenId) :
    (written s info derived).lockedAmounts i = s.lockedAmounts i ∧
      (written s info derived).lockedDerivedAmount i = s.lockedDerivedAmount i ∧
      (written s info derived).lockedEnd i = s.lockedEnd i := by
  unfold written
  dsimp only
  refine ⟨?_, ?_, ?_⟩
  · split_ifs
    · exact update2_of_ne hi
    · rfl
  · split_ifs
    · exact Function.update_of_ne hi _ _
    · rfl
  · split_ifs
    · exact Function.update_of_ne hi _ _
    · rfl

/-- a deposit: the lock is written, checkpointed in `s₁`, and the tokens are pulled -/
structure DepositSteps (cfg : Config) (s : State) (env : Env) (info : DepositInfo) (derived : ℕ) (s₁ s' : State) :
    Prop where
  computed : info.value ≠ 0 → calculateDerivedAmount info.lockedAmount info.lockedDerivedAmount
    (info.lockedAmount + info.value) (s.tokenWeights info.stakingToken) (cfg.decimals info.stakingToken) = .ok derived
  unchanged : info.value = 0 → derived = info.lockedDerivedAmount
  checked : checkpointWith (written s info derived) env ⟨info.tokenId, info.lockedDerivedAmount, derived, info.lockedEnd,
    if info.unlockTime ≠ 0 then info.unlockTime else info.lockedEnd⟩ = .ok s₁
  pulled : depositTokens cfg s₁ env info = .ok s'

theorem depositEnd_eq (s : State) (info : DepositInfo) : depositEnd s info =
    ({ s with
      lockedEnd := if info.unlockTime ≠ 0 then Function.update s.lockedEnd info.tokenId info.unlockTime else s.lockedEnd },
      if info.unlockTime ≠ 0 then info.unlockTime else info.lockedEnd) := by
  unfold depositEnd
  split_ifs
  · rfl
  · rfl

theorem depositFor_steps {info : DepositInfo} (h : depositFor cfg s env info = .ok s') :
    ∃ derived s₁, DepositSteps cfg s env info derived s₁ s' := by
  obtain ⟨⟨sa, derived⟩, ha, h⟩ := bind_ok.1 h
  dsimp only at h
  rw [depositEnd_eq] at h
  obtain ⟨sb, hb, hpulled⟩ := bind_ok.1 h
  clear h
  unfold depositAmount at ha
  by_cases hv : info.value ≠ 0
  · rw [if_pos hv] at ha
    simp only [uadd_bind] at ha
    obtain ⟨-, ha⟩ := ha
    obtain ⟨d, hd, ha⟩ := bind_ok.1 ha
    cases ha
    refine ⟨derived, sb, fun _ => hd, fun h0 => absurd h0 hv, ?_, hpulled⟩
    rw [written, if_pos hv, if_pos hv]
    exact hb
  · rw [if_neg hv] at ha
    cases ha
    refine ⟨_, sb, fun h0 => absurd h0 hv, fun _ => rfl, ?_, hpulled⟩
    rw [written, if_neg hv, if_neg hv]
    exact hb

theorem depositFor_relocked {info : DepositInfo} (h : depositFor cfg s env info = .ok s') : Relocked s s' := by
  obtain ⟨derived, s₁, hs⟩ := depositFor_steps h
  have hwritten : Relocked s (written s info derived) := relocked_lock s _ _ _
  exact hwritten.trans ((checkpointWith_relocked hs.checked).trans (depositTokens_rebalanced hs.pulled).relocked)

theorem unlockTimeOf_aligned {d t : ℕ} (h : unlockTimeOf env d = .ok t) : t % WEEK = 0 := by
  simp only [unlockTimeOf, uadd_bind, pure_ok] at h
  rw [← h.2]
  exact Nat.mul_mod_left _ _

/-- a lock is made: a new id, minted in `s₁`, and the deposit -/
structure CreateSteps (cfg : Config) (s : State) (env : Env) (token : Address) (value : ℕ) (dst : Address)
    (received : Res Bool) (unlockTime : ℕ) (s₁ s' : State) : Prop where
  value_pos : 0 < value
  aligned : unlockTime % WEEK = 0
  later : env.timestamp < unlockTime
  near : unlockTime ≤ env.timestamp + MAX_TIME
  valid : s.isValidToken token
  minted : mint { s with tokenId := s.tokenId + 1 } dst (s.tokenId + 1) received = .ok s₁
  deposited : depositFor cfg s₁ env
    { stakingToken := token, tokenId := s.tokenId + 1, value, unlockTime, lockedAmount := 0, lockedDerivedAmount := 0,
      lockedEnd := 0, depositType := .CREATE_LOCK_TYPE } = .ok s'

theorem createLockFor_ok {token dst : Address} {value d id : ℕ} {received : Res Bool}
    (h : createLockFor cfg s env token value d dst received = .ok (s', id)) :
    ∃ unlockTime s₁, CreateSteps cfg s env token value dst received unlockTime s₁ s' := by
  simp only [createLockFor, require_bind] at h
  obtain ⟨hvalue, h⟩ := h
  obtain ⟨unlockTime, hu, h⟩ := bind_ok.1 h
  simp only [require_bind, uadd_bind, incrementTokenIdAndGet] at h
  obtain ⟨hlow, -, hhigh, hvalid, h⟩ := h
  obtain ⟨⟨sa, id'⟩, ha, h⟩ := bind_ok.1 h
  simp only [uadd_bind, pure_ok, Prod.mk.injEq] at ha
  obtain ⟨-, rfl, rfl⟩ := ha
  obtain ⟨sb, hb, h⟩ := bind_ok.1 h
  obtain ⟨sc, hc, h⟩ := bind_ok.1 h
  cases h
  exact ⟨unlockTime, sb, hvalue, unlockTimeOf_aligned hu, hlow, hhigh, hvalid, hb, hc⟩

/-- a deposit on top of a live lock -/
structure IncreaseAmountSteps (cfg : Config) (s : State) (env : Env) (token : Address) (id value : ℕ) (s' : State) :
    Prop where
  value_pos : 0 < value
  power : 0 < s.lockedDerivedAmount id
  live : env.timestamp < s.lockedEnd id
  valid : s.isValidToken token
  deposited : depositFor cfg s env
    { stakingToken := token, tokenId := id, value, unlockTime := 0, lockedAmount := s.lockedAmounts id token,
      lockedDerivedAmount := s.lockedDerivedAmount id, lockedEnd := s.lockedEnd id,
      depositType := .INCREASE_LOCK_AMOUNT } = .ok s'

theorem increaseAmount_ok {token : Address} {id value : ℕ} (h : increaseAmount cfg s env token id value = .ok s') :
    IncreaseAmountSteps cfg s env token id value s' := by
  simp only [increaseAmount, require_bind] at h
  obtain ⟨hvalue, hpower, hlive, hvalid, h⟩ := h
  exact ⟨hvalue, hpower, hlive, hvalid, h⟩

/-- a deposit of nothing under a later end -/
structure IncreaseUnlockTimeSteps (cfg : Config) (s : State) (env : Env) (id unlockTime : ℕ) (s' : State) : Prop where
  aligned : unlockTime % WEEK = 0
  power : 0 < s.lockedDerivedAmount id
  live : env.timestamp < s.lockedEnd id
  later : s.lockedEnd id < unlockTime
  near : unlockTime ≤ env.timestamp + MAX_TIME
  deposited : depositFor cfg s env
    { stakingToken := 0, tokenId := id, value := 0, unlockTime, lockedAmount := 0,
      lockedDerivedAmount := s.lockedDerivedAmount id, lockedEnd := s.lockedEnd id,
      depositType := .INCREASE_UNLOCK_TIME } = .ok s'

theorem increaseUnlockTime_ok {id d power date : ℕ}
    (h : increaseUnlockTime cfg s env id d = .ok (s', power, date)) :
    ∃ unlockTime, IncreaseUnlockTimeSteps cfg s env id unlockTime s' := by
  obtain ⟨unlockTime, hu, h⟩ := bind_ok.1 h
  simp only [require_bind, uadd_bind] at h
  obtain ⟨hpower, hlive, hlow, -, hhigh, -, h⟩ := h
  obtain ⟨sa, ha, h⟩ := bind_ok.1 h
  obtain ⟨p, -, h⟩ := bind_ok.1 h
  cases h
  exact ⟨unlockTime, unlockTimeOf_aligned hu, hpower, hlive, hlow, hhigh, ha⟩

/-- a merge: the tokens moved in `s₁`, the source cleared and checkpointed in `s₂`, then burned -/
structure MergeSteps (cfg : Config) (s : State) (env : Env) (src dst : ℕ) (s₁ s₂ s' : State) : Prop where
  ne : src ≠ dst
  src_live : env.timestamp < s.lockedEnd src
  dst_live : env.timestamp < s.lockedEnd dst
  moved : mergeTokens cfg env src dst (max (s.lockedEnd src) (s.lockedEnd dst)) s.tokens s (s.lockedEnd dst) = .ok s₁
  cleared : checkpointWith { s₁ with
      lockedDerivedAmount := Function.update s₁.lockedDerivedAmount src 0
      lockedEnd := Function.update s₁.lockedEnd src 0 } env
    ⟨src, s.lockedDerivedAmount src, 0, s.lockedEnd src, s.lockedEnd src⟩ = .ok s₂
  burned : burn s₂ env src = .ok s'

theorem merge_ok {src dst : ℕ} (h : merge cfg s env src dst = .ok s') : ∃ s₁ s₂, MergeSteps cfg s env src dst s₁ s₂ s' := by
  simp only [merge, require_bind] at h
  obtain ⟨hne, -, ⟨hsrc, hdst⟩, h⟩ := h
  obtain ⟨sa, ha, h⟩ := bind_ok.1 h
  obtain ⟨sb, hb, h⟩ := bind_ok.1 h
  exact ⟨sa, sb, hne, hsrc, hdst, ha, hb, h⟩

/-- a split: a new id, minted in `s₁`, the tokens moved in `s₂`, and the checkpoint of the NFT that is split -/
structure SplitSteps (cfg : Config) (s : State) (env : Env) (id percent : ℕ) (received : Res Bool) (s₁ s₂ : State)
    (derived : ℕ) (s' : State) : Prop where
  live : env.timestamp < s.lockedEnd id
  minted : mint { s with tokenId := s.tokenId + 1 } env.sender (s.tokenId + 1) received = .ok s₁
  moved : splitTokens cfg env id (s.tokenId + 1) percent (s.lockedEnd id) s₁.tokens s₁ (s.lockedDerivedAmount id) =
    .ok (s₂, derived)
  checked : checkpointWith { s₂ with lockedDerivedAmount := Function.update s₂.lockedDerivedAmount id derived } env
    ⟨id, s.lockedDerivedAmount id, derived, s.lockedEnd id, s.lockedEnd id⟩ = .ok s'

theorem split_ok {id percent : ℕ} {received : Res Bool} (h : split cfg s env id percent received = .ok s') :
    ∃ s₁ s₂ derived, SplitSteps cfg s env id percent received s₁ s₂ derived s' := by
  simp only [split, require_bind, incrementTokenIdAndGet] at h
  obtain ⟨-, -, hlive, h⟩ := h
  obtain ⟨⟨sa, newId⟩, ha, h⟩ := bind_ok.1 h
  simp only [uadd_bind, pure_ok, Prod.mk.injEq] at ha
  obtain ⟨-, rfl, rfl⟩ := ha
  obtain ⟨sb, hb, h⟩ := bind_ok.1 h
  obtain ⟨⟨sc, derived⟩, hc, h⟩ := bind_ok.1 h
  exact ⟨sb, sc, derived, hlive, hb, hc, h⟩

/-- one round of the loop of a merge: a token of the source goes to the other NFT, whose end so far is carried along -/
structure MergeRound (cfg : Config) (s : State) (env : Env) (src dst lockEnd : ℕ) (token : Address) (e : ℕ) (s₁ : State) :
    Prop where
  locked : s.lockedAmounts src token ≠ 0
  deposited : depositFor cfg { s with lockedAmounts := update2 s.lockedAmounts src token 0 } env
    { stakingToken := token, tokenId := dst, value := s.lockedAmounts src token, unlockTime := lockEnd,
      lockedAmount := update2 s.lockedAmounts src token 0 dst token, lockedDerivedAmount := s.lockedDerivedAmount dst,
      lockedEnd := e, depositType := .MERGE_TYPE } = .ok s₁

/-- a token that is not locked is passed over -/
theorem mergeTokens_cons {src dst lockEnd e : ℕ} {token : Address} {rest : List Address}
    (h : mergeTokens cfg env src dst lockEnd (token :: rest) s e = .ok s') :
    s.lockedAmounts src token = 0 ∧ mergeTokens cfg env src dst lockEnd rest s e = .ok s' ∨
      ∃ s₁, MergeRound cfg s env src dst lockEnd token e s₁ ∧
        mergeTokens cfg env src dst lockEnd rest s₁ lockEnd = .ok s' := by
  rw [mergeTokens] at h
  split_ifs at h with h0
  · exact .inl ⟨h0, h⟩
  · obtain ⟨s₁, h₁, h⟩ := bind_ok.1 h
    exact .inr ⟨s₁, ⟨h0, h₁⟩, h⟩

/-- what every round of a merge keeps, the loop keeps -/
theorem mergeTokens_rel {src dst lockEnd e : ℕ} {R : State → State → Prop} (refl : ∀ s, R s s)
    (trans : ∀ {s s₁ s₂}, R s s₁ → R s₁ s₂ → R s s₂)
    (round : ∀ {s s₁ token e}, MergeRound cfg s env src dst lockEnd token e s₁ → R s s₁) (tokens : List Address)
    (h : mergeTokens cfg env src dst lockEnd tokens s e = .ok s') : R s s' := by
  induction tokens generalizing s e with
  | nil =>
    cases h
    exact refl _
  | cons token rest ih =>
    rcases mergeTokens_cons h with ⟨-, h⟩ | ⟨s₁, hround, h⟩
    · exact ih h
    · exact trans (round hround) (ih h)

theorem mergeTokens_relocked {src dst lockEnd e : ℕ} (tokens : List Address)
    (h : mergeTokens cfg env src dst lockEnd tokens s e = .ok s') : Relocked s s' :=
  mergeTokens_rel .refl .trans (fun hround => (relocked_lock _ _ _ _).trans (depositFor_relocked hround.deposited))
    tokens h

/-- one round of the loop of a split: a share of the token goes to the new NFT, what is left of the derived amount on -/
structure SplitRound (cfg : Config) (s : State) (env : Env) (id newId percent lockEnd : ℕ) (token : Address)
    (derived left : ℕ) (s₁ : State) : Prop where
  locked : s.lockedAmounts id token ≠ 0
  share_ne : s.lockedAmounts id token * percent / (100 * 10 ^ 18) ≠ 0
  share_le : s.lockedAmounts id token * percent / (100 * 10 ^ 18) ≤ s.lockedAmounts id token
  computed : calculateDerivedAmount (s.lockedAmounts id token) derived
    (s.lockedAmounts id token - s.lockedAmounts id token * percent / (100 * 10 ^ 18)) (s.tokenWeights token)
    (cfg.decimals token) = .ok left
  deposited : depositFor cfg { s with
      lockedAmounts := update2 s.lockedAmounts id token
        (s.lockedAmounts id token - s.lockedAmounts id token * percent / (100 * 10 ^ 18)) } env
    { stakingToken := token, tokenId := newId, value := s.lockedAmounts id token * percent / (100 * 10 ^ 18),
      unlockTime := lockEnd, lockedAmount := 0, lockedDerivedAmount := s.lockedDerivedAmount newId, lockedEnd := lockEnd,
      depositType := .MERGE_TYPE } = .ok s₁

/-- a token that is not locked is passed over -/
theorem splitTokens_cons {id newId percent lockEnd derived derived' : ℕ} {token : Address} {rest : List Address}
    (h : splitTokens cfg env id newId percent lockEnd (token :: rest) s derived = .ok (s', derived')) :
    splitTokens cfg env id newId percent lockEnd rest s derived = .ok (s', derived') ∨
      ∃ left s₁, SplitRound cfg s env id newId percent lockEnd token derived left s₁ ∧
        splitTokens cfg env id newId percent lockEnd rest s₁ left = .ok (s', derived') := by
  rw [splitTokens] at h
  split_ifs at h with h0
  · exact .inl h
  · simp only [umul_bind, udiv_bind, require_bind, usub_bind] at h
    obtain ⟨-, -, hne, hle, h⟩ := h
    obtain ⟨left, hleft, h⟩ := bind_ok.1 h
    obtain ⟨s₁, h₁, h⟩ := bind_ok.1 h
    exact .inr ⟨left, s₁, ⟨h0, hne, hle, hleft, h₁⟩, h⟩

/-- what every round of a split keeps of the state and the derived amount that is left, the loop keeps -/
theorem splitTokens_rel {id newId percent lockEnd d d' : ℕ} {R : State × ℕ → State × ℕ → Prop} (refl : ∀ a, R a a)
    (trans : ∀ {a b c}, R a b → R b c → R a c)
    (round : ∀ {s s₁ token d left}, SplitRound cfg s env id newId percent lockEnd token d left s₁ → R (s, d) (s₁, left))
    (tokens : List Address) (h : splitTokens cfg env id newId percent lockEnd tokens s d = .ok (s', d')) :
    R (s, d) (s', d') := by
  induction tokens generalizing s d with
  | nil =>
    cases h
    exact refl _
  | cons token rest ih =>
    rcases splitTokens_cons h with h | ⟨left, s₁, hround, h⟩
    · exact ih h
    · exact trans (round hround) (ih h)

theorem splitTokens_relocked {id newId percent lockEnd d d' : ℕ} (tokens : List Address)
    (h : splitTokens cfg env id newId percent lockEnd tokens s d = .ok (s', d')) : Relocked s s' :=
  splitTokens_rel (R := fun a b => Relocked a.1 b.1) (fun _ => .refl _) .trans
    (fun hround => (relocked_lock _ _ _ _).trans (depositFor_relocked hround.deposited)) tokens h

/-- an end that is kept or cleared is no later -/
theorem keptEnd_le (derived lockEnd : ℕ) : (if derived = 0 then 0 else lockEnd) ≤ lockEnd := by
  split_ifs
  · exact Nat.zero_le _
  · exact le_rfl

/-- a withdrawal of one token: the lock rewritten and checkpointed in `s₁`, burned if empty in `s₂`, then the transfer -/
structure WithdrawSteps (cfg : Config) (s : State) (env : Env) (token : Address) (id derived : ℕ) (s₁ s₂ s' : State) :
    Prop where
  expired : s.lockedEnd id ≤ env.timestamp
  amount_pos : 0 < s.lockedAmounts id token
  checked : checkpointWith { s with
      lockedEnd := Function.update s.lockedEnd id (if derived = 0 then 0 else s.lockedEnd id)
      lockedDerivedAmount := Function.update s.lockedDerivedAmount id derived
      lockedAmounts := update2 s.lockedAmounts id token 0 } env
    ⟨id, s.lockedDerivedAmount id, derived, s.lockedEnd id, if derived = 0 then 0 else s.lockedEnd id⟩ = .ok s₁
  burned : burnIfEmpty s₁ env id derived = .ok s₂
  paid : transferUnderlyingToken cfg s₂ token env.sender (s.lockedAmounts id token) = .ok s'

theorem withdraw_ok {token : Address} {id : ℕ} (h : withdraw cfg s env token id = .ok s') :
    ∃ derived s₁ s₂, WithdrawSteps cfg s env token id derived s₁ s₂ s' := by
  simp only [withdraw, require_bind] at h
  obtain ⟨-, hover, hpos, h⟩ := h
  obtain ⟨derived, -, h⟩ := bind_ok.1 h
  obtain ⟨sa, ha, h⟩ := bind_ok.1 h
  obtain ⟨sb, hb, h⟩ := bind_ok.1 h
  exact ⟨derived, sa, sb, hover, hpos, ha, hb, h⟩

/-- before the source of a merge is burned -/
theorem MergeSteps.relocked {src dst : ℕ} (h : MergeSteps cfg s env src dst s₁ s₂ s') : Relocked s s₂ :=
  (mergeTokens_relocked _ h.moved).trans ((relocked_lock s₁ _ _ _).trans (checkpointWith_relocked h.cleared))

/-- after the new NFT of a split is minted -/
theorem SplitSteps.relocked {id percent derived : ℕ} {received : Res Bool}
    (h : SplitSteps cfg s env id percent received s₁ s₂ derived s') : Relocked s₁ s' :=
  (splitTokens_relocked _ h.moved).trans ((relocked_lock s₂ _ _ _).trans (checkpointWith_relocked h.checked))

/-- before the NFT is burned, if it is -/
theorem WithdrawSteps.relocked {token : Address} {id derived : ℕ}
    (h : WithdrawSteps cfg s env token id derived s₁ s₂ s') : Relocked s s₁ :=
  (relocked_lock s _ _ _).trans (checkpointWith_relocked h.checked)

/-- what every withdrawal keeps, `withdrawAll` keeps -/
theorem withdrawTokens_rel {id : ℕ} {R : State → State → Prop} (refl : ∀ s, R s s)
    (trans : ∀ {s s₁ s₂}, R s s₁ → R s₁ s₂ → R s s₂)
    (round : ∀ {s s₁ token}, withdraw cfg s env token id = .ok s₁ → R s s₁) (tokens : List Address)
    (h : withdrawTokens cfg env id tokens s = .ok s') : R s s' := by
  induction tokens generalizing s with
  | nil =>
    cases h
    exact refl _
  | cons token rest ih =>
    rw [withdrawTokens] at h
    split_ifs at h
    · obtain ⟨s₁, h₁, h⟩ := bind_ok.1 h
      exact trans (round h₁) (ih h)
    · exact ih h

end SimContracts.Ve
