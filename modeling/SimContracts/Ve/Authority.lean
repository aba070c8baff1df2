/-
Who may do what to an NFT. The owner, the account approved for it and the owner's operators act for it; transfers go from
or to whitelisted accounts only; in the block of a transfer the NFT has no power.

An NFT's title (its owner, its approved account, the owner's operators, the block of its last transfer) is changed by six
calls, at the id they name (`exec_title`); deposits, checkpoints and payments leave it alone (`Relocked`).

Results:
  nft_left_alone          calls by accounts that may not act for an NFT leave its owner, its approvals and its lock end as
                          they are, and never lower its locked amounts
  owner_changes           an owner changes by a burn or by a transfer from or to a whitelisted account, by who may act for it
  transferred_powerless   an NFT that was transferred has no power for the rest of the block, whatever follows
-/
import SimContracts.Ve.Locks
import SimContracts.Ve.Ownership

namespace SimContracts.Ve

open Solidity

variable {cfg : Config} {s s' s₁ s₂ : State} {env : Env}

/-! ## Titles -/

/-- same owner, approved account and operators, and no transfer since -/
structure SameTitle (s s' : State) (id : ℕ) : Prop where
  owner : s'.idToOwner id = s.idToOwner id
  approval : s'.idToApprovals id = s.idToApprovals id
  operators : s'.ownerToOperators (s.idToOwner id) = s.ownerToOperators (s.idToOwner id)
  change : s'.ownershipChange id = s.ownershipChange id

variable {id i : ℕ}

theorem SameTitle.refl (s : State) (id : ℕ) : SameTitle s s id := ⟨rfl, rfl, rfl, rfl⟩

theorem SameTitle.trans (h : SameTitle s s₁ id) (h' : SameTitle s₁ s₂ id) : SameTitle s s₂ id := by
  have hoperators := h'.operators
  rw [h.owner] at hoperators
  exact ⟨h'.owner.trans h.owner, h'.approval.trans h.approval, hoperators.trans h.operators, h'.change.trans h.change⟩

theorem Relocked.title (h : Relocked s s') (id : ℕ) : SameTitle s s' id := by
  obtain ⟨_, _, _, _, _, _, _, _, _, rfl⟩ := h
  exact ⟨rfl, rfl, rfl, rfl⟩

theorem Reowned.operators (h : Reowned s s') : s'.ownerToOperators = s.ownerToOperators := by
  obtain ⟨_, _, _, _, _, _, rfl⟩ := h
  rfl

/-- the NFT is gone, the title otherwise as `burn` leaves it -/
structure Burned (s s' : State) (id : ℕ) : Prop where
  owner : s'.idToOwner id = 0
  change : s'.ownershipChange id = s.ownershipChange id

theorem addTokenTo_title {dst : Address} (h : addTokenTo s dst i = .ok s') :
    s'.idToOwner = Function.update s.idToOwner i dst ∧ s'.idToApprovals = s.idToApprovals ∧
      s'.ownershipChange = s.ownershipChange := by
  simp only [addTokenTo, addTokenToOwnerList, uadd_bind, pure_ok] at h
  obtain ⟨-, rfl⟩ := h
  exact ⟨rfl, rfl, rfl⟩

theorem removeTokenFrom_title {src : Address} (h : removeTokenFrom s src i = .ok s') :
    s.idToOwner i = src ∧ s'.idToOwner = Function.update s.idToOwner i 0 ∧ s'.idToApprovals = s.idToApprovals ∧
      s'.ownershipChange = s.ownershipChange := by
  simp only [removeTokenFrom, require_bind] at h
  obtain ⟨howner, h⟩ := h
  obtain ⟨s₁, h1, h⟩ := bind_ok.1 h
  simp only [usub_bind, pure_ok] at h
  obtain ⟨-, rfl⟩ := h
  simp only [removeTokenFromOwnerList, usub_bind] at h1
  obtain ⟨-, h1⟩ := h1
  split_ifs at h1
  · cases h1
    exact ⟨howner, rfl, rfl, rfl⟩
  · cases h1
    exact ⟨howner, rfl, rfl, rfl⟩

theorem mint_title {dst : Address} {received : Res Bool} (h : mint { s with tokenId := i } dst i received = .ok s')
    (hne : id ≠ i) : SameTitle s s' id := by
  have hoperators := (mint_reowned h).operators
  simp only [mint, require_bind] at h
  obtain ⟨-, h⟩ := h
  obtain ⟨s₁, h1, h⟩ := bind_ok.1 h
  obtain ⟨answer, -, h⟩ := bind_ok.1 h
  simp only [require_bind, pure_ok] at h
  obtain ⟨-, rfl⟩ := h
  obtain ⟨howner, happroval, hchange⟩ := addTokenTo_title h1
  exact ⟨by rw [howner, Function.update_of_ne hne], by rw [happroval], by rw [hoperators], by rw [hchange]⟩

theorem burn_title (h : burn s env i = .ok s') : Burned s s' i ∧ ∀ id ≠ i, SameTitle s s' id := by
  have hoperators := (burn_reowned h).operators
  obtain ⟨s₁, h1, h2⟩ := bind_ok.1 h
  simp only [approve, require_bind, pure_ok] at h1
  obtain ⟨-, -, -, rfl⟩ := h1
  obtain ⟨-, howner, happroval, hchange⟩ := removeTokenFrom_title h2
  refine ⟨⟨by rw [howner, Function.update_self], by rw [hchange]⟩, fun id hne => ⟨?_, ?_, by rw [hoperators], by rw [hchange]⟩⟩
  · rw [howner, Function.update_of_ne hne]
  · rw [happroval]
    exact Function.update_of_ne hne _ _

/-- one NFT keeps its title or is burned, the others keep theirs -/
def Leaves (i : ℕ) (s s' : State) : Prop := (SameTitle s s' i ∨ Burned s s' i) ∧ ∀ id ≠ i, SameTitle s s' id

theorem Leaves.refl (s : State) : Leaves i s s := ⟨.inl (.refl _ _), fun _ _ => .refl _ _⟩

theorem Leaves.trans (h : Leaves i s s₁) (h' : Leaves i s₁ s₂) : Leaves i s s₂ := by
  refine ⟨?_, fun id hne => (h.2 id hne).trans (h'.2 id hne)⟩
  rcases h'.1 with hsame' | hburned'
  · rcases h.1 with hsame | hburned
    · exact .inl (hsame.trans hsame')
    · exact .inr ⟨hsame'.owner.trans hburned.owner, hsame'.change.trans hburned.change⟩
  · rcases h.1 with hsame | hburned
    · exact .inr ⟨hburned'.owner, hburned'.change.trans hsame.change⟩
    · exact .inr ⟨hburned'.owner, hburned'.change.trans hburned.change⟩

theorem Relocked.leaves (h : Relocked s s') : Leaves i s s' := ⟨.inl (h.title i), fun id _ => h.title id⟩

theorem withdraw_leaves {token : Address} (h : withdraw cfg s env token i = .ok s') : Leaves i s s' := by
  obtain ⟨derived, s₁, s₂, hs⟩ := withdraw_ok h
  have hpaid : Leaves i s₂ s' := (transferUnderlyingToken_rebalanced hs.paid).relocked.leaves
  have hburned : Leaves i s₁ s₂ := by
    have hb := hs.burned
    unfold burnIfEmpty at hb
    split_ifs at hb
    · exact (burn_title hb).imp_left .inr
    · cases hb
      exact .refl _
  exact hs.relocked.leaves.trans (hburned.trans hpaid)

theorem withdrawTokens_leaves (tokens : List Address) (h : withdrawTokens cfg env i tokens s = .ok s') : Leaves i s s' :=
  withdrawTokens_rel .refl .trans withdraw_leaves tokens h

/-- how a call changes the title of an NFT -/
def Reassigns (env : Env) (s s' : State) (id : ℕ) : Call → Prop
  | .safeTransferFrom src dst i _ =>
    i = id ∧ s.idToOwner id = src ∧ s'.idToOwner id = dst ∧ (s.isWhitelistedTransfer dst ∨ s.isWhitelistedTransfer src) ∧
      s'.ownershipChange id = env.number
  | .approve _ i => i = id ∧ s'.idToOwner id = s.idToOwner id ∧ s'.ownershipChange id = s.ownershipChange id
  | .setApprovalForAll _ _ =>
    s.idToOwner id = env.sender ∧ s'.idToOwner id = s.idToOwner id ∧ s'.ownershipChange id = s.ownershipChange id
  | .merge i _ | .withdraw _ i | .withdrawAll i => i = id ∧ Burned s s' id
  | _ => False

theorem safeTransferFrom_title {src dst : Address} {received : Res Bool}
    (h : safeTransferFrom s env src dst i received = .ok s') :
    Reassigns env s s' i (.safeTransferFrom src dst i received) ∧ ∀ id ≠ i, SameTitle s s' id := by
  have hoperators := (safeTransferFrom_reowned h).operators
  simp only [safeTransferFrom, transferFrom, require_bind] at h
  obtain ⟨hlisted, h⟩ := h
  obtain ⟨s₁, h1, h⟩ := bind_ok.1 h
  obtain ⟨answer, -, h⟩ := bind_ok.1 h
  simp only [require_bind, pure_ok] at h h1
  obtain ⟨-, rfl⟩ := h
  obtain ⟨-, -, h1⟩ := h1
  obtain ⟨s₂, h2, h1⟩ := bind_ok.1 h1
  obtain ⟨s₃, h3, h1⟩ := bind_ok.1 h1
  cases h1
  obtain ⟨hsrc, howner, happroval, hchange⟩ := removeTokenFrom_title h2
  obtain ⟨howner', happroval', hchange'⟩ := addTokenTo_title h3
  refine ⟨⟨rfl, hsrc, by simp only [howner', Function.update_self], hlisted, Function.update_self ..⟩,
    fun id hne => ⟨?_, ?_, by rw [hoperators], ?_⟩⟩
  · simp only [howner', howner, Function.update_of_ne hne]
  · simp only [happroval', happroval, Function.update_of_ne hne]
  · simp only [hchange', hchange, Function.update_of_ne hne]

/-- **Titles.** A call leaves the title of an NFT alone, or is one of those that change it, and names it. -/
theorem exec_title {call : Call} (hused : id ≤ s.tokenId) (h : exec cfg s env call = .ok s') :
    SameTitle s s' id ∨ Reassigns env s s' id call := by
  have hnew : id ≠ s.tokenId + 1 := by omega
  cases call with
  | createLockFor token value d dst received =>
    obtain ⟨⟨_, _⟩, h1, ⟨⟩⟩ := bind_ok.1 h
    obtain ⟨unlockTime, s₁, hc⟩ := createLockFor_ok h1
    exact .inl ((mint_title hc.minted hnew).trans ((depositFor_relocked hc.deposited).title id))
  | createLock token value d received =>
    obtain ⟨⟨_, _⟩, h1, ⟨⟩⟩ := bind_ok.1 h
    obtain ⟨unlockTime, s₁, hc⟩ := createLockFor_ok h1
    exact .inl ((mint_title hc.minted hnew).trans ((depositFor_relocked hc.deposited).title id))
  | increaseAmount token i value => exact .inl ((depositFor_relocked (increaseAmount_ok h).deposited).title id)
  | increaseUnlockTime i d =>
    obtain ⟨⟨_, _, _⟩, h1, ⟨⟩⟩ := bind_ok.1 h
    obtain ⟨unlockTime, hs⟩ := increaseUnlockTime_ok h1
    exact .inl ((depositFor_relocked hs.deposited).title id)
  | merge src dst =>
    obtain ⟨s₁, s₂, hm⟩ := merge_ok h
    have hmoved := hm.relocked
    obtain ⟨hburned, hothers⟩ := burn_title hm.burned
    by_cases hid : id = src
    · subst hid
      exact .inr ⟨rfl, hburned.owner, hburned.change.trans (hmoved.title id).change⟩
    · exact .inl ((hmoved.title id).trans (hothers id hid))
  | split i percent received =>
    obtain ⟨s₁, s₂, derived, hs⟩ := split_ok h
    have hmoved := hs.relocked
    exact .inl ((mint_title hs.minted hnew).trans (hmoved.title id))
  | withdraw token i =>
    obtain ⟨hi, hothers⟩ := withdraw_leaves h
    by_cases hid : id = i
    · subst hid
      exact hi.imp_right fun hburned => ⟨rfl, hburned⟩
    · exact .inl (hothers id hid)
  | withdrawAll i =>
    obtain ⟨hi, hothers⟩ := withdrawTokens_leaves _ h
    by_cases hid : id = i
    · subst hid
      exact hi.imp_right fun hburned => ⟨rfl, hburned⟩
    · exact .inl (hothers id hid)
  | checkpoint =>
    have h : checkpointWith s env ⟨0, 0, 0, 0, 0⟩ = .ok s' := h
    exact .inl ((checkpointWith_relocked h).title id)
  | safeTransferFrom src dst i received =>
    obtain ⟨hi, hothers⟩ := safeTransferFrom_title h
    by_cases hid : id = i
    · subst hid
      exact .inr hi
    · exact .inl (hothers id hid)
  | approve approved i =>
    simp only [exec, approve, require_bind, pure_ok] at h
    obtain ⟨-, -, -, rfl⟩ := h
    by_cases hid : id = i
    · exact .inr ⟨hid.symm, rfl, rfl⟩
    · exact .inl ⟨rfl, Function.update_of_ne hid _ _, rfl, rfl⟩
  | setApprovalForAll operator approved =>
    simp only [exec, setApprovalForAll, require_bind, pure_ok] at h
    obtain ⟨-, rfl⟩ := h
    by_cases howner : s.idToOwner id = env.sender
    · exact .inr ⟨howner, rfl, rfl⟩
    · exact .inl ⟨rfl, rfl, update2_of_ne howner, rfl⟩
  | announceAction type =>
    simp only [exec, announceAction, require_bind, uadd_bind, pure_ok] at h
    obtain ⟨-, -, -, rfl⟩ := h
    exact .inl ⟨rfl, rfl, rfl, rfl⟩
  | whitelistTransferFor value =>
    simp only [exec, whitelistTransferFor, require_bind, pure_ok] at h
    obtain ⟨-, -, -, rfl⟩ := h
    exact .inl ⟨rfl, rfl, rfl, rfl⟩
  | addToken token weight =>
    simp only [exec, addToken, require_bind, pure_ok] at h
    obtain ⟨-, -, -, -, -, rfl⟩ := h
    exact .inl ⟨rfl, rfl, rfl, rfl⟩
  | tokenTransfer token dst amount | tokenTransferFrom token src dst amount | tokenApprove token spender amount =>
    obtain ⟨-, h⟩ := require_bind.1 h
    obtain ⟨_, -, ⟨⟩⟩ := bind_ok.1 h
    exact .inl ⟨rfl, rfl, rfl, rfl⟩

theorem Reassigns.owner_eq {call : Call} (h : Reassigns env s s' id call) (ho : s'.idToOwner id ≠ 0)
    (hne : s'.idToOwner id ≠ s.idToOwner id) :
    ∃ received, call = .safeTransferFrom (s.idToOwner id) (s'.idToOwner id) id received ∧
      (s.isWhitelistedTransfer (s'.idToOwner id) ∨ s.isWhitelistedTransfer (s.idToOwner id)) := by
  cases call with
  | safeTransferFrom src dst i received =>
    obtain ⟨rfl, rfl, rfl, hlisted, -⟩ := h
    exact ⟨received, rfl, hlisted⟩
  | approve approved i => exact absurd h.2.1 hne
  | setApprovalForAll operator approved => exact absurd h.2.1 hne
  | merge i dst => exact absurd h.2.owner ho
  | withdraw token i => exact absurd h.2.owner ho
  | withdrawAll i => exact absurd h.2.owner ho
  | _ => exact h.elim

/-! ## Who may call -/

/-- the calls at an NFT that not everybody may make -/
def Call.concerns (id : ℕ) : Call → Prop
  | .increaseUnlockTime i _ | .split i _ _ | .withdraw _ i | .withdrawAll i | .safeTransferFrom _ _ i _ | .approve _ i =>
    i = id
  | .merge src dst => src = id ∨ dst = id
  | _ => False

theorem Reassigns.concerns {call : Call} (h : Reassigns env s s' id call) :
    call.concerns id ∨ s.idToOwner id = env.sender := by
  cases call with
  | merge i dst => exact .inl (.inl h.1)
  | safeTransferFrom src dst i received | approve approved i | withdraw token i | withdrawAll i => exact .inl h.1
  | setApprovalForAll operator approved => exact .inr h.1
  | _ => exact h.elim

theorem authorised_iff {sender : Address} : isApprovedOrOwner s sender id = true ↔
    s.idToOwner id = sender ∨ sender = s.idToApprovals id ∨ s.ownerToOperators (s.idToOwner id) sender := by
  simp only [isApprovedOrOwner, decide_eq_true_eq]

/-- with nothing locked there is nothing to refuse -/
theorem withdrawTokens_authorised (tokens : List Address) (h : withdrawTokens cfg env i tokens s = .ok s') :
    isApprovedOrOwner s env.sender i = true ∨ s' = s := by
  refine withdrawTokens_rel (R := fun s s' => isApprovedOrOwner s env.sender i = true ∨ s' = s) (fun _ => .inr rfl)
    (fun h h' => ?_) (fun h₁ => .inl (require_bind.1 h₁).1) tokens h
  rcases h with hallowed | rfl
  · exact .inl hallowed
  · exact h'

theorem exec_authorised {call : Call} (hc : call.concerns id) (h : exec cfg s env call = .ok s') :
    isApprovedOrOwner s env.sender id = true ∨ s' = s := by
  cases call with
  | increaseUnlockTime i d =>
    obtain rfl : i = id := hc
    obtain ⟨⟨_, _, _⟩, h1, -⟩ := bind_ok.1 h
    obtain ⟨_, -, h1⟩ := bind_ok.1 h1
    simp only [require_bind, uadd_bind] at h1
    exact .inl h1.2.2.2.2.2.1
  | split i percent received =>
    obtain rfl : i = id := hc
    exact .inl (authorised_iff.2 (.inl (require_bind.1 h).1))
  | merge src dst =>
    obtain ⟨-, h⟩ := require_bind.1 h
    obtain ⟨⟨hsrc, hdst⟩, -⟩ := require_bind.1 h
    rcases hc with rfl | rfl
    · exact .inl (authorised_iff.2 (.inl hsrc))
    · exact .inl (authorised_iff.2 (.inl hdst))
  | withdraw token i =>
    obtain rfl : i = id := hc
    exact .inl (require_bind.1 h).1
  | withdrawAll i =>
    obtain rfl : i = id := hc
    exact withdrawTokens_authorised _ h
  | safeTransferFrom src dst i received =>
    obtain rfl : i = id := hc
    obtain ⟨-, h⟩ := require_bind.1 h
    obtain ⟨s₁, h1, -⟩ := bind_ok.1 h
    exact .inl (require_bind.1 h1).1
  | approve approved i =>
    obtain rfl : i = id := hc
    simp only [exec, approve, require_bind] at h
    exact .inl (authorised_iff.2 (h.2.2.1.imp_right .inr))
  | _ => exact hc.elim

/-- title and lock end are as they were, and nothing was taken out -/
structure Kept (s s' : State) (id : ℕ) : Prop where
  title : SameTitle s s' id
  lockEnd : s'.lockedEnd id = s.lockedEnd id
  amounts : ∀ t, s.lockedAmounts id t ≤ s'.lockedAmounts id t

theorem Kept.refl (s : State) (id : ℕ) : Kept s s id := ⟨.refl s id, rfl, fun _ => le_rfl⟩

theorem Kept.trans (h : Kept s s₁ id) (h' : Kept s₁ s₂ id) : Kept s s₂ id :=
  ⟨h.title.trans h'.title, h'.lockEnd.trans h.lockEnd, fun t => (h.amounts t).trans (h'.amounts t)⟩

/-- the same accounts may act for it -/
theorem SameTitle.authorised (h : SameTitle s s' id) (sender : Address) :
    isApprovedOrOwner s' sender id = isApprovedOrOwner s sender id := by
  rw [isApprovedOrOwner, isApprovedOrOwner, h.owner, h.approval, h.operators]

/-- the lock of an NFT that a call does not concern -/
theorem Effect.lock {call : Call} (h : Effect env s s' call) (hused : id ≤ s.tokenId) (hc : ¬ call.concerns id) :
    s'.lockedEnd id = s.lockedEnd id ∧ ∀ t, s.lockedAmounts id t ≤ s'.lockedAmounts id t := by
  have hnew : id ≠ s.tokenId + 1 := by omega
  cases call with
  | createLockFor token value d dst received =>
    obtain ⟨-, -, hamounts, unlock, -, hends⟩ := h
    exact ⟨by rw [hends, Function.update_of_ne hnew], fun t => by rw [hamounts, update2_of_ne hnew]⟩
  | createLock token value d received =>
    obtain ⟨-, -, hamounts, unlock, -, hends⟩ := h
    exact ⟨by rw [hends, Function.update_of_ne hnew], fun t => by rw [hamounts, update2_of_ne hnew]⟩
  | increaseAmount token i value =>
    -- anybody may add to a lock
    obtain ⟨-, hamounts, hends⟩ := h
    refine ⟨by rw [hends], fun t => ?_⟩
    rw [hamounts]
    by_cases hid : id = i
    · subst hid
      rw [update2_row, Function.update_apply]
      split_ifs with ht
      · subst ht
        exact Nat.le_add_right _ _
      · exact le_rfl
    · rw [update2_of_ne hid]
  | increaseUnlockTime i d =>
    obtain ⟨hamounts, unlock, -, -, hends⟩ := h
    have hid : id ≠ i := fun e => hc e.symm
    exact ⟨by rw [hends, Function.update_of_ne hid], fun t => by rw [hamounts]⟩
  | merge src dst =>
    obtain ⟨-, -, -, s₁, hflow, -, hamounts, hends⟩ := h
    have hsrc : id ≠ src := fun e => hc (.inl e.symm)
    have hdst : id ≠ dst := fun e => hc (.inr e.symm)
    refine ⟨?_, fun t => by rw [hamounts, hflow.others id hsrc hdst]⟩
    rw [hends, Function.update_of_ne hsrc, hflow.ends id hdst]
  | split i percent received =>
    obtain ⟨-, -, hflow⟩ := h
    have hid : id ≠ i := fun e => hc e.symm
    exact ⟨hflow.ends id hnew, fun t => by rw [hflow.others id hid hnew]⟩
  | withdraw token i =>
    have hid : id ≠ i := fun e => hc e.symm
    exact ⟨h.2.ends id hid, fun t => by rw [h.2.others id hid]⟩
  | withdrawAll i =>
    have hid : id ≠ i := fun e => hc e.symm
    exact ⟨h.2.ends id hid, fun t => by rw [h.2.others id hid]⟩
  | _ => exact ⟨by rw [h.2], fun t => by rw [h.1]⟩

/-- a call of somebody who may not act for the NFT -/
theorem exec_kept {call : Call} (hv : Vault cfg s) (hused : id ≤ s.tokenId) (hnot : isApprovedOrOwner s env.sender id = false)
    (h : exec cfg s env call = .ok s') : Kept s s' id := by
  have hsame : call.concerns id → s' = s := fun hc =>
    (exec_authorised hc h).resolve_left (by rw [hnot]; exact Bool.false_ne_true)
  by_cases hc : call.concerns id
  · rw [hsame hc]
    exact .refl s id
  · have htitle : SameTitle s s' id := by
      refine (exec_title hused h).resolve_right fun hre => ?_
      rcases hre.concerns with hc' | howner
      · exact hc hc'
      · rw [authorised_iff.2 (.inl howner)] at hnot
        exact Bool.noConfusion hnot
    obtain ⟨hend, hamounts⟩ := (exec_effect hv h).2.lock hused hc
    exact ⟨htitle, hend, hamounts⟩

/-! ## Custody -/

/-- in order: the owners' lists, the locks' ids, no approvals given by the contract -/
def Ordered (cfg : Config) (s : State) : Prop := Listed s ∧ Vault cfg s

theorem exec_ordered {c : Env × Call} (h : execIn cfg s c = .ok s') (hs : Ordered cfg s) : Ordered cfg s' :=
  ⟨(exec_listed h hs.1).1, (exec_surplus h hs.2).vault⟩

theorem reached_ordered (env₀ : Env) {erc20 : Address → ERC20} (shady : Address) (calls : List (Env × Call))
    (hfresh : ∀ token spender, (erc20 token).allowance cfg.self spender = 0) :
    Ordered cfg (run (execIn cfg) (deploy env₀ erc20 shady) calls) :=
  run_inv (execIn cfg) (fun _ _ _ hs _ h => exec_ordered h hs) _ calls
    ⟨deploy_listed env₀ erc20 shady, deploy_vault env₀ shady hfresh⟩ (along_true _ _ _)

theorem run_kept (others : List (Env × Call)) (hs : Ordered cfg s) (hid : s.idToOwner id ≠ 0)
    (hothers : ∀ c ∈ others, isApprovedOrOwner s c.1.sender id = false) : Kept s (run (execIn cfg) s others) id := by
  induction others generalizing s with
  | nil => exact .refl s id
  | cons c others ih =>
    rw [run_cons]
    cases h : execIn cfg s c with
    | error e => exact ih hs hid fun d hd => hothers d (List.mem_cons_of_mem _ hd)
    | ok s' =>
      have hkept := exec_kept hs.2 (hs.1.used hid).2 (hothers c List.mem_cons_self) h
      refine hkept.trans (ih (exec_ordered h hs) (hkept.title.owner ▸ hid) fun d hd => ?_)
      rw [hkept.title.authorised]
      exact hothers d (List.mem_cons_of_mem _ hd)

/-! ## Main results -/

/-- **Custody.** Whatever accounts call that may not act for an NFT, its owner, its approved account, its operators and the
end of its lock stay as they are, and the amounts locked in it never fall. -/
theorem nft_left_alone (cfg : Config) (env₀ : Env) (erc20 : Address → ERC20) (shady : Address) (calls others : List (Env × Call))
    (hfresh : ∀ token spender, (erc20 token).allowance cfg.self spender = 0) (id : ℕ) :
    let s := run (execIn cfg) (deploy env₀ erc20 shady) calls
    s.idToOwner id ≠ 0 → (∀ c ∈ others, isApprovedOrOwner s c.1.sender id = false) →
      Kept s (run (execIn cfg) s others) id := by
  intro s hid hothers
  exact run_kept others (reached_ordered env₀ shady calls hfresh) hid hothers

/-- the calls of account 2 at the NFT of account 1, also after the end of its lock -/
def strangerCalls : List (Env × Call) :=
  [({ exampleEnv (101 * WEEK) with sender := 2 }, .approve 2 1),
    ({ exampleEnv (101 * WEEK) with sender := 2 }, .split 1 (10 ^ 19) (.ok true)),
    ({ exampleEnv (110 * WEEK) with sender := 2 }, .withdrawAll 1)]

theorem nft_left_alone_oneLock :
    let s := run (execIn exampleConfig) exampleDeploy [oneLock]
    Kept s (run (execIn exampleConfig) s strangerCalls) 1 := by
  refine nft_left_alone exampleConfig (exampleEnv (100 * WEEK)) exampleTokens 7 [oneLock] strangerCalls exampleTokens_fresh 1
    (by decide +kernel) fun c hc => ?_
  have hsender : ∀ c ∈ strangerCalls, c.1.sender = 2 := by simp [strangerCalls]
  rw [hsender c hc]
  decide +kernel

/-- **Changes of ownership.** In every reachable state and for every call that goes through: if an NFT has another owner
afterwards, the caller could act for it, and the call is its transfer between the two with one of them whitelisted; or the NFT
is gone. -/
theorem owner_changes (cfg : Config) (env₀ : Env) (erc20 : Address → ERC20) (shady : Address) (calls : List (Env × Call))
    (env : Env) (call : Call) (s' : State) (id : ℕ) :
    let s := run (execIn cfg) (deploy env₀ erc20 shady) calls
    exec cfg s env call = .ok s' → s.idToOwner id ≠ 0 → s'.idToOwner id ≠ s.idToOwner id →
      isApprovedOrOwner s env.sender id = true ∧ (s'.idToOwner id = 0 ∨
        ∃ received, call = .safeTransferFrom (s.idToOwner id) (s'.idToOwner id) id received ∧
          (s.isWhitelistedTransfer (s'.idToOwner id) ∨ s.isWhitelistedTransfer (s.idToOwner id))) := by
  intro s h hid hne
  have hlisted : Listed s := (run_listed calls (deploy_listed env₀ erc20 shady)).1
  have hre : Reassigns env s s' id call :=
    (exec_title (hlisted.used hid).2 h).resolve_left fun hsame => hne hsame.owner
  constructor
  · rcases hre.concerns with hc | howner
    · exact (exec_authorised hc h).resolve_right fun e => hne (by rw [e])
    · exact authorised_iff.2 (.inl howner)
  · by_cases ho : s'.idToOwner id = 0
    · exact .inl ho
    · exact .inr (hre.owner_eq ho hne)

/-- the governance whitelists account 3, a second after the 18 hours -/
def whitelisting : List (Env × Call) :=
  [oneLock, ({ exampleEnv (100 * WEEK + 10) with sender := 99 }, .announceAction .WHITELIST_TRANSFER),
    ({ exampleEnv (100 * WEEK + 64811) with sender := 99 }, .whitelistTransferFor 3)]

/-- account 1 gives its NFT to account 3 -/
def transferToThree : Env × Call := (exampleEnv (101 * WEEK), .safeTransferFrom 1 3 1 (.ok true))

theorem owner_changes_transferToThree :
    ∃ s', execIn exampleConfig (run (execIn exampleConfig) exampleDeploy whitelisting) transferToThree = .ok s' ∧
      s'.idToOwner 1 = 3 ∧ ∃ received, transferToThree.2 = .safeTransferFrom 1 3 1 received := by
  obtain ⟨s', h⟩ : ∃ s', execIn exampleConfig (run (execIn exampleConfig) exampleDeploy whitelisting) transferToThree = .ok s' :=
    Res.failure_none (by decide +kernel)
  have howner : (run (execIn exampleConfig) exampleDeploy whitelisting).idToOwner 1 = 1 := by decide +kernel
  have hmap : (execIn exampleConfig (run (execIn exampleConfig) exampleDeploy whitelisting) transferToThree).map
      (·.idToOwner 1) = .ok 3 := by decide +kernel
  rw [h] at hmap
  have howner' : s'.idToOwner 1 = 3 := Except.ok.inj hmap
  obtain ⟨-, hmoved⟩ := owner_changes exampleConfig (exampleEnv (100 * WEEK)) exampleTokens 7 whitelisting transferToThree.1
    transferToThree.2 s' 1 h (ne_of_eq_of_ne howner (by decide)) (by
      rw [howner']
      exact ne_of_ne_of_eq (by decide) howner.symm)
  obtain ⟨received, hcall, -⟩ := hmoved.resolve_left (by rw [howner']; decide)
  rw [howner'] at hcall
  exact ⟨s', h, howner', received, hcall.trans (by rw [← howner]; rfl)⟩

theorem safeTransferFrom_owned {src dst : Address} {received : Res Bool}
    (h : safeTransferFrom s env src dst id received = .ok s') (hs : Listed s) : s.idToOwner id ≠ 0 := by
  simp only [safeTransferFrom, transferFrom, require_bind] at h
  obtain ⟨-, h⟩ := h
  obtain ⟨s₁, h1, -⟩ := bind_ok.1 h
  simp only [require_bind] at h1
  obtain ⟨-, -, h1⟩ := h1
  obtain ⟨s₂, h2, -⟩ := bind_ok.1 h1
  exact (removeTokenFrom_holdings h2 hs.holdings).2.2

/-- a call in block `n` leaves the last transfer of an NFT there if it was in that block -/
theorem exec_change {call : Call} {n : ℕ} (hused : id ≤ s.tokenId) (hchange : s.ownershipChange id = n)
    (hn : env.number = n) (h : exec cfg s env call = .ok s') : s'.ownershipChange id = n := by
  rcases exec_title hused h with hsame | hre
  · exact hsame.change.trans hchange
  · cases call with
    | safeTransferFrom src dst i received => exact hre.2.2.2.2.trans hn
    | approve approved i => exact hre.2.2.trans hchange
    | setApprovalForAll operator approved => exact hre.2.2.trans hchange
    | merge i dst => exact hre.2.change.trans hchange
    | withdraw token i => exact hre.2.change.trans hchange
    | withdrawAll i => exact hre.2.change.trans hchange
    | _ => exact hre.elim

theorem run_change {n : ℕ} (after : List (Env × Call)) (hs : Listed s) (hused : id ≤ s.tokenId)
    (hchange : s.ownershipChange id = n) (hblock : ∀ c ∈ after, c.1.number = n) :
    (run (execIn cfg) s after).ownershipChange id = n := by
  induction after generalizing s with
  | nil => exact hchange
  | cons c after ih =>
    have hrest : ∀ d ∈ after, d.1.number = n := fun d hd => hblock d (List.mem_cons_of_mem _ hd)
    rw [run_cons]
    cases h : execIn cfg s c with
    | error e => exact ih hs hused hchange hrest
    | ok s' =>
      obtain ⟨hs', htoken⟩ := exec_listed h hs
      exact ih hs' (hused.trans (htoken ▸ Nat.le_add_right _ _))
        (exec_change hused hchange (hblock c List.mem_cons_self) h) hrest

/-- **No power in the block of a transfer.** After a transfer of an NFT in any reachable state, its voting power is zero for
the rest of the block, whatever calls follow in it. -/
theorem transferred_powerless (cfg : Config) (env₀ : Env) (erc20 : Address → ERC20) (shady : Address)
    (calls after : List (Env × Call)) (env now : Env) (src dst : Address) (id : ℕ) (received : Res Bool) (s' : State) :
    let s := run (execIn cfg) (deploy env₀ erc20 shady) calls
    exec cfg s env (.safeTransferFrom src dst id received) = .ok s' →
      (∀ c ∈ after, c.1.number = env.number) → now.number = env.number →
        balanceOfNFT (run (execIn cfg) s' after) now id = .ok 0 := by
  intro s h hblock hnow
  have hlisted : Listed s := (run_listed calls (deploy_listed env₀ erc20 shady)).1
  obtain ⟨hlisted', htoken⟩ := exec_listed h hlisted
  have hused : id ≤ s'.tokenId := (hlisted.used (safeTransferFrom_owned h hlisted)).2.trans (htoken ▸ Nat.le_add_right _ _)
  have hchange : (run (execIn cfg) s' after).ownershipChange id = env.number :=
    run_change after hlisted' hused (safeTransferFrom_title h).1.2.2.2.2 hblock
  rw [balanceOfNFT, hchange, hnow, if_pos rfl]

/-- account 3 adds to the lock it was given, in the same block -/
theorem transferred_powerless_increase :
    ∃ s', execIn exampleConfig (run (execIn exampleConfig) exampleDeploy whitelisting) transferToThree = .ok s' ∧
      balanceOfNFT (run (execIn exampleConfig) s' [(exampleEnv (101 * WEEK), .increaseAmount 7 1 (10 ^ 20))])
        (exampleEnv (101 * WEEK)) 1 = .ok 0 := by
  obtain ⟨s', h⟩ : ∃ s', execIn exampleConfig (run (execIn exampleConfig) exampleDeploy whitelisting) transferToThree = .ok s' :=
    Res.failure_none (by decide +kernel)
  refine ⟨s', h, transferred_powerless exampleConfig (exampleEnv (100 * WEEK)) exampleTokens 7 whitelisting
    [(exampleEnv (101 * WEEK), .increaseAmount 7 1 (10 ^ 20))] transferToThree.1 _ 1 3 1 (.ok true) s' h
    (fun c hc => ?_) rfl⟩
  rw [List.mem_singleton.1 hc]
  rfl

end SimContracts.Ve
