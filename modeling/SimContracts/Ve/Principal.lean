/-
Principal: the staking tokens the escrow holds against its locks.

`locked s token` is the sum of `lockedAmounts[id][token]` over all ids given out. A deposit credits one lock and, unless
it is part of a merge or a split, pulls the same amount from the caller; a withdrawal clears one lock and pays it out.
So the difference between the contract's token balance and `locked` only ever changes by what somebody sends to the
contract directly.

- `exec_surplus`: one call does not lower the difference, and leaves it unchanged unless it is such a gift.
- `locked_le_balance`: after any calls every lock is held, exactly if nobody gives, and each operation brings in what it
  records.
-/
import SimContracts.Ve.Runs

namespace SimContracts.Ve

open Solidity

variable {cfg : Config} {s s' s₁ s₂ : State} {env : Env}

/-! ## Locked amounts -/

/-- the sum of a token's locked amounts over all NFTs -/
def locked (s : State) (token : Address) : ℕ := ∑ id ∈ ids s, s.lockedAmounts id token

/-- the contract's balance of a token -/
def held (cfg : Config) (s : State) (token : Address) : ℕ := (s.erc20 token).balanceOf cfg.self

/-- token list, ids and approvals as the locks need them -/
structure Vault (cfg : Config) (s : State) : Prop where
  nodup : s.tokens.Nodup
  unused : ∀ id token, s.tokenId < id → s.lockedAmounts id token = 0
  unlocked : ∀ id, s.tokenId < id → s.lockedDerivedAmount id = 0 ∧ s.lockedEnd id = 0
  /-- the contract approves nobody -/
  allowance : ∀ token spender, (s.erc20 token).allowance cfg.self spender = 0

/-- same tokens, token balances and ids -/
structure SameTokens (s s' : State) : Prop where
  erc20 : s'.erc20 = s.erc20
  tokens : s'.tokens = s.tokens
  tokenId : s'.tokenId = s.tokenId

theorem SameTokens.refl (s : State) : SameTokens s s := ⟨rfl, rfl, rfl⟩

theorem SameTokens.trans (h : SameTokens s s₁) (h' : SameTokens s₁ s₂) : SameTokens s s₂ :=
  ⟨h'.erc20.trans h.erc20, h'.tokens.trans h.tokens, h'.tokenId.trans h.tokenId⟩

theorem locked_congr (h1 : s'.tokenId = s.tokenId) (h2 : s'.lockedAmounts = s.lockedAmounts) (token : Address) :
    locked s' token = locked s token := by
  rw [locked, locked, ids, ids, h1, h2]

theorem held_congr (h : s'.erc20 = s.erc20) (token : Address) : held cfg s' token = held cfg s token := by
  rw [held, held, h]

/-- writing one locked amount exchanges its old value for the new one -/
theorem locked_write (s s' : State) {m : ℕ → Address → ℕ} {id : ℕ} {token : Address} {v : ℕ} (hid : id ≤ s.tokenId)
    (h1 : s'.tokenId = s.tokenId) (h2 : s'.lockedAmounts = update2 m id token v) (h3 : s.lockedAmounts = m)
    (t : Address) :
    locked s' t + (if t = token then s.lockedAmounts id token else 0) =
      locked s t + if t = token then v else 0 := by
  subst h3
  have hmem : id ∈ ids s := Finset.mem_range.2 (Nat.lt_succ_of_le hid)
  have hids : ids s' = ids s := by rw [ids, ids, h1]
  rw [locked, locked, hids, h2]
  by_cases ht : t = token
  · subst ht
    rw [if_pos rfl, if_pos rfl, ← Finset.add_sum_erase _ _ hmem,
      ← Finset.add_sum_erase _ (fun i => s.lockedAmounts i t) hmem]
    have hrest : ∑ i ∈ (ids s).erase id, update2 s.lockedAmounts id t v i t =
        ∑ i ∈ (ids s).erase id, s.lockedAmounts i t := by
      refine Finset.sum_congr rfl fun i hi => ?_
      rw [update2_of_ne (Finset.ne_of_mem_erase hi)]
    have hself : update2 s.lockedAmounts id t v id t = v := by simp [update2]
    rw [hrest, hself]
    omega
  · rw [if_neg ht, if_neg ht]
    congr 1
    refine Finset.sum_congr rfl fun i _ => ?_
    by_cases hi : i = id
    · subst hi
      simp [update2, ht]
    · rw [update2_of_ne hi]

/-! ## Functions that move no token -/

theorem checkpointWith_tokens {info : CheckpointInfo} (h : checkpointWith s env info = .ok s') : SameTokens s s' := by
  obtain ⟨_, _, _, _, _, rfl⟩ := checkpointWith_repointed h
  exact ⟨rfl, rfl, rfl⟩

theorem Reowned.tokens (h : Reowned s s') : SameTokens s s' := by
  obtain ⟨_, _, _, _, _, _, rfl⟩ := h
  exact ⟨rfl, rfl, rfl⟩

/-! ## Deposits -/

/-- a deposit of `value` on top of the recorded amount, before tokens are pulled: the lock is credited, no token moves -/
theorem depositFor_credits {info : DepositInfo} (h : depositFor cfg s env info = .ok s') :
    ∃ s₁, SameTokens s s₁ ∧ s₁.lockedAmounts = (if info.value ≠ 0 then
        update2 s.lockedAmounts info.tokenId info.stakingToken (info.lockedAmount + info.value)
      else s.lockedAmounts) ∧ depositTokens cfg s₁ env info = .ok s' := by
  obtain ⟨derived, s₁, hs⟩ := depositFor_steps h
  have hwritten : SameTokens s (written s info derived) := ⟨rfl, rfl, rfl⟩
  refine ⟨s₁, hwritten.trans (checkpointWith_tokens hs.checked), ?_, hs.pulled⟩
  rw [(checkpointWith_locks hs.checked).1.amounts]
  rfl

/-- the deposit of a merge or a split credits the lock and moves no token -/
theorem depositFor_merge {info : DepositInfo} (h : depositFor cfg s env info = .ok s')
    (htype : info.depositType = .MERGE_TYPE) (hv : info.value ≠ 0) :
    SameTokens s s' ∧ s'.lockedAmounts =
      update2 s.lockedAmounts info.tokenId info.stakingToken (info.lockedAmount + info.value) := by
  obtain ⟨s₁, hsame, hamount, h⟩ := depositFor_credits h
  rw [depositTokens, if_neg (by simp [htype])] at h
  cases h
  rw [if_pos hv] at hamount
  exact ⟨hsame, hamount⟩

/-- a deposit from outside credits the lock with what it pulls -/
theorem depositFor_pulls {info : DepositInfo} (h : depositFor cfg s env info = .ok s')
    (htype : info.depositType ≠ .MERGE_TYPE) (hv : info.value ≠ 0) :
    s'.tokens = s.tokens ∧ s'.tokenId = s.tokenId ∧ s'.lockedAmounts =
      update2 s.lockedAmounts info.tokenId info.stakingToken (info.lockedAmount + info.value) ∧
      ∃ t, (s.erc20 info.stakingToken).transferFrom cfg.self env.sender cfg.self info.value = .ok t ∧
        s'.erc20 = Function.update s.erc20 info.stakingToken t := by
  obtain ⟨s₁, hsame, hamount, h⟩ := depositFor_credits h
  rw [depositTokens, if_pos ⟨hv, htype⟩] at h
  obtain ⟨t, ht, h⟩ := bind_ok.1 h
  cases h
  rw [if_pos hv] at hamount
  refine ⟨hsame.tokens, hsame.tokenId, hamount, t, ?_, ?_⟩
  · rw [← hsame.erc20]
    exact ht
  · show Function.update s₁.erc20 _ t = _
    rw [hsame.erc20]

/-! ## Operations -/

/-- the locks and the balances of the contract both grow by `value` of `token` -/
structure Brings (cfg : Config) (s s' : State) (token : Address) (value : ℕ) : Prop where
  vault : Vault cfg s'
  locked : ∀ t, locked s' t = locked s t + if t = token then value else 0
  held : ∀ t, held cfg s' t = held cfg s t + if t = token then value else 0

/-- the locks and the balances of the contract keep their sums -/
structure Conserves (cfg : Config) (s s' : State) : Prop where
  vault : Vault cfg s'
  locked : ∀ t, locked s' t = locked s t
  held : ∀ t, held cfg s' t = held cfg s t

theorem Conserves.refl (hv : Vault cfg s) : Conserves cfg s s := ⟨hv, fun _ => rfl, fun _ => rfl⟩

theorem Conserves.trans (h : Conserves cfg s s₁) (h' : Conserves cfg s₁ s₂) : Conserves cfg s s₂ :=
  ⟨h'.vault, fun t => (h'.locked t).trans (h.locked t), fun t => (h'.held t).trans (h.held t)⟩

/-- the locks of ids that are not given out keep their power and end -/
def NewUntouched (s s' : State) : Prop :=
  ∀ id, s.tokenId < id → s'.lockedDerivedAmount id = s.lockedDerivedAmount id ∧ s'.lockedEnd id = s.lockedEnd id

theorem SameLocks.newUntouched (h : SameLocks s s') : NewUntouched s s' :=
  fun id _ => ⟨congrFun h.derived id, congrFun h.ends id⟩

theorem depositFor_newUntouched {info : DepositInfo} (h : depositFor cfg s env info = .ok s')
    (hid : info.tokenId ≤ s.tokenId) : NewUntouched s s' :=
  fun id hlt => (depositFor_others h).2.2.1 id (by omega)

theorem SameTokens.conserves (h : SameTokens s s') (hlocks : s'.lockedAmounts = s.lockedAmounts)
    (hnew : NewUntouched s s') (hv : Vault cfg s) : Conserves cfg s s' := by
  refine ⟨⟨h.tokens ▸ hv.nodup, fun id token hid => ?_, fun id hid => ?_, fun token spender => ?_⟩,
    locked_congr h.tokenId hlocks, held_congr h.erc20⟩
  · rw [hlocks]
    exact hv.unused id token (h.tokenId ▸ hid)
  · rw [h.tokenId] at hid
    rw [(hnew id hid).1, (hnew id hid).2]
    exact hv.unlocked id hid
  · rw [h.erc20]
    exact hv.allowance token spender

theorem Reowned.conserves (h : Reowned s s') (hv : Vault cfg s) : Conserves cfg s s' :=
  h.tokens.conserves h.frame.locks.amounts h.frame.locks.newUntouched hv

theorem checkpointWith_conserves {info : CheckpointInfo} (h : checkpointWith s env info = .ok s') (hv : Vault cfg s) :
    Conserves cfg s s' :=
  have hlocks := (checkpointWith_locks h).1
  (checkpointWith_tokens h).conserves hlocks.amounts hlocks.newUntouched hv

/-- writing one amount of an id that is given out -/
theorem Vault.write {id : ℕ} {token : Address} {v : ℕ} (hv : Vault cfg s) (hid : id ≤ s.tokenId)
    (hsame : SameTokens s s') (hnew : NewUntouched s s') (h : s'.lockedAmounts = update2 s.lockedAmounts id token v) :
    Vault cfg s' := by
  refine ⟨hsame.tokens ▸ hv.nodup, fun i t hi => ?_, fun i hi => ?_, fun t spender => ?_⟩
  · rw [hsame.tokenId] at hi
    rw [h, update2_of_ne (by omega)]
    exact hv.unused i t hi
  · rw [hsame.tokenId] at hi
    rw [(hnew i hi).1, (hnew i hi).2]
    exact hv.unlocked i hi
  · rw [hsame.erc20]
    exact hv.allowance t spender

theorem depositFor_brings {info : DepositInfo} (h : depositFor cfg s env info = .ok s')
    (htype : info.depositType ≠ .MERGE_TYPE) (hvalue : info.value ≠ 0) (hid : info.tokenId ≤ s.tokenId)
    (hinfo : info.lockedAmount = s.lockedAmounts info.tokenId info.stakingToken) (hv : Vault cfg s) :
    Brings cfg s s' info.stakingToken info.value := by
  obtain ⟨htokens, htokenId, hamounts, t, ht, herc⟩ := depositFor_pulls h htype hvalue
  obtain ⟨hallow, hbal, -⟩ := ERC20.transferFrom_unapproved ht (hv.allowance info.stakingToken)
  rw [if_pos rfl] at hbal
  refine ⟨⟨htokens ▸ hv.nodup, fun i tok hi => ?_, fun i hi => ?_, fun tok spender => ?_⟩, fun tok => ?_, fun tok => ?_⟩
  · rw [htokenId] at hi
    rw [hamounts, update2_of_ne (by omega)]
    exact hv.unused i tok hi
  · rw [htokenId] at hi
    have hnew := depositFor_newUntouched h hid i hi
    rw [hnew.1, hnew.2]
    exact hv.unlocked i hi
  · rw [herc]
    by_cases htok : tok = info.stakingToken
    · subst htok
      rw [Function.update_self]
      exact hallow spender
    · rw [Function.update_of_ne htok]
      exact hv.allowance tok spender
  · have hw := locked_write s s' hid htokenId hamounts rfl tok
    rw [hinfo] at hw
    split_ifs at hw ⊢ <;> omega
  · rw [held, held, herc]
    by_cases htok : tok = info.stakingToken
    · subst htok
      rw [Function.update_self, if_pos rfl, hbal]
    · rw [Function.update_of_ne htok, if_neg htok, Nat.add_zero]

theorem Vault.used_of_derived (hv : Vault cfg s) {id : ℕ} (h : 0 < s.lockedDerivedAmount id) : id ≤ s.tokenId := by
  by_contra hlt
  rw [(hv.unlocked id (by omega)).1] at h
  omega

theorem Vault.used_of_end (hv : Vault cfg s) {id t : ℕ} (h : t < s.lockedEnd id) : id ≤ s.tokenId := by
  by_contra hlt
  rw [(hv.unlocked id (by omega)).2] at h
  omega

/-- a new id has no amounts yet -/
theorem Vault.nextId (hv : Vault cfg s) : Conserves cfg s { s with tokenId := s.tokenId + 1 } := by
  refine ⟨⟨hv.nodup, fun id token hid => hv.unused id token (Nat.lt_of_succ_lt hid),
    fun id hid => hv.unlocked id (Nat.lt_of_succ_lt hid), hv.allowance⟩, fun t => ?_, fun _ => rfl⟩
  show ∑ id ∈ Finset.range (s.tokenId + 1 + 1), s.lockedAmounts id t = _
  rw [Finset.sum_range_succ, hv.unused _ t (Nat.lt_succ_self _), Nat.add_zero]
  rfl

theorem Conserves.brings {token : Address} {value : ℕ} (h : Conserves cfg s s₁) (h' : Brings cfg s₁ s₂ token value) :
    Brings cfg s s₂ token value :=
  ⟨h'.vault, fun t => by rw [h'.locked, h.locked], fun t => by rw [h'.held, h.held]⟩

theorem createLockFor_brings {token dst : Address} {value d id : ℕ} {received : Res Bool}
    (h : createLockFor cfg s env token value d dst received = .ok (s', id)) (hv : Vault cfg s) :
    Brings cfg s s' token value := by
  obtain ⟨unlockTime, sb, hs⟩ := createLockFor_ok h
  have hvalue := hs.value_pos
  have hmint := mint_reowned hs.minted
  have hsame := hmint.tokens
  have hamounts := hmint.frame.locks.amounts
  have hnew : sb.lockedAmounts (s.tokenId + 1) token = 0 := by
    rw [hamounts]
    exact hv.unused _ _ (Nat.lt_succ_self _)
  have hkeep := hv.nextId.trans (hmint.conserves hv.nextId.vault)
  exact hkeep.brings (depositFor_brings hs.deposited nofun (by dsimp only; omega) hsame.tokenId.ge hnew.symm hkeep.vault)

theorem increaseAmount_brings {token : Address} {id value : ℕ} (h : increaseAmount cfg s env token id value = .ok s')
    (hv : Vault cfg s) : Brings cfg s s' token value := by
  have hs := increaseAmount_ok h
  have hvalue := hs.value_pos
  exact depositFor_brings hs.deposited nofun (by dsimp only; omega) (hv.used_of_derived hs.power) rfl hv

theorem increaseUnlockTime_conserves {id d power date : ℕ}
    (h : increaseUnlockTime cfg s env id d = .ok (s', power, date)) (hv : Vault cfg s) : Conserves cfg s s' := by
  obtain ⟨unlockTime, hs⟩ := increaseUnlockTime_ok h
  have hnew := depositFor_newUntouched hs.deposited (hv.used_of_derived hs.power)
  obtain ⟨s₁, hsame, hamounts, ht⟩ := depositFor_credits hs.deposited
  cases ht
  exact hsame.conserves hamounts hnew hv

/-! ### Merge and split -/

/-- moving an amount from one lock to another -/
theorem move_conserves {src dst : ℕ} {token : Address} {x left : ℕ} (hsrc : src ≤ s.tokenId) (hdst : dst ≤ s.tokenId)
    (hsame : SameTokens s s') (hnew : NewUntouched s s') (hne : src ≠ dst) (hx : left + x = s.lockedAmounts src token)
    (h : s'.lockedAmounts = update2 (update2 s.lockedAmounts src token left) dst token
      (s.lockedAmounts dst token + x)) (hv : Vault cfg s) : Conserves cfg s s' := by
  -- the write at `src` and the write at `dst`, one after the other
  have h1 := locked_write s { s with lockedAmounts := update2 s.lockedAmounts src token left } hsrc rfl rfl rfl
  have h2 := locked_write { s with lockedAmounts := update2 s.lockedAmounts src token left } s' hdst hsame.tokenId h rfl
  have hother : update2 s.lockedAmounts src token left dst token = s.lockedAmounts dst token := by
    rw [update2_of_ne hne.symm]
  have hvault : Vault cfg { s with lockedAmounts := update2 s.lockedAmounts src token left } :=
    hv.write hsrc ⟨rfl, rfl, rfl⟩ (fun _ _ => ⟨rfl, rfl⟩) rfl
  refine ⟨hvault.write hdst ⟨hsame.erc20, hsame.tokens, hsame.tokenId⟩ hnew h, fun t => ?_,
    held_congr hsame.erc20⟩
  have h1 := h1 t
  have h2 := h2 t
  dsimp only at h2
  rw [hother] at h2
  split_ifs at h1 h2 <;> omega

theorem mergeTokens_conserves {src dst lockEnd : ℕ} (hne : src ≠ dst) (tokens : List Address) {e : ℕ}
    (h : mergeTokens cfg env src dst lockEnd tokens s e = .ok s') (hdst : dst ≤ s.tokenId) (hv : Vault cfg s) :
    Conserves cfg s s' := by
  induction tokens generalizing s e with
  | nil =>
    cases h
    exact .refl hv
  | cons token rest ih =>
    rcases mergeTokens_cons h with ⟨-, h⟩ | ⟨sa, hround, h⟩
    · exact ih h hdst hv
    · have ha := hround.deposited
      have hsrc : src ≤ s.tokenId := by
        by_contra hlt
        exact hround.locked (hv.unused src token (by omega))
      obtain ⟨hsame, hamounts⟩ := depositFor_merge ha rfl hround.locked
      have hother : update2 s.lockedAmounts src token 0 dst token = s.lockedAmounts dst token := by
        rw [update2_of_ne hne.symm]
      dsimp only at hamounts
      rw [hother] at hamounts
      have hnew := depositFor_newUntouched ha hdst
      have hmove : Conserves cfg s sa := move_conserves hsrc hdst ⟨hsame.erc20, hsame.tokens, hsame.tokenId⟩ hnew hne
        (Nat.zero_add _) hamounts hv
      exact hmove.trans (ih h (hsame.tokenId.symm ▸ hdst) hmove.vault)

theorem merge_conserves {src dst : ℕ} (h : merge cfg s env src dst = .ok s') (hv : Vault cfg s) :
    Conserves cfg s s' := by
  obtain ⟨sa, sb, hne, hsrc, hdst, ha, hb, h⟩ := merge_ok h
  have hmove := mergeTokens_conserves hne s.tokens ha (hv.used_of_end hdst) hv
  have hsrc : src ≤ sa.tokenId := by
    rw [(mergeTokens_good hne s.tokens ha).2.1]
    exact hv.used_of_end hsrc
  -- the source lock is cleared, checkpointed and burned
  have hclear : Conserves cfg sa { sa with
      lockedDerivedAmount := Function.update sa.lockedDerivedAmount src 0
      lockedEnd := Function.update sa.lockedEnd src 0 } := by
    refine SameTokens.conserves ⟨rfl, rfl, rfl⟩ rfl (fun id hid => ?_) hmove.vault
    have hid : id ≠ src := by omega
    exact ⟨Function.update_of_ne hid _ _, Function.update_of_ne hid _ _⟩
  have hcheck := checkpointWith_conserves hb hclear.vault
  have hburn := (burn_reowned h).conserves hcheck.vault
  exact ((hmove.trans hclear).trans hcheck).trans hburn

/-- the token loop of a split: every token is met once, so its amount for the new NFT is still zero -/
theorem splitTokens_conserves {id newId percent lockEnd : ℕ} (hne : id ≠ newId) (tokens : List Address) {d d' : ℕ}
    (h : splitTokens cfg env id newId percent lockEnd tokens s d = .ok (s', d')) (hnodup : tokens.Nodup)
    (hfresh : ∀ t ∈ tokens, s.lockedAmounts newId t = 0) (hnewId : newId ≤ s.tokenId) (hv : Vault cfg s) :
    Conserves cfg s s' ∧ SameTokens s s' := by
  induction tokens generalizing s d with
  | nil =>
    cases h
    exact ⟨.refl hv, .refl _⟩
  | cons token rest ih =>
    have hnodup' := (List.nodup_cons.1 hnodup).2
    have hnotin := (List.nodup_cons.1 hnodup).1
    rcases splitTokens_cons h with h | ⟨left, sa, hround, h⟩
    · exact ih h hnodup' (fun t ht => hfresh t (List.mem_cons_of_mem _ ht)) hnewId hv
    · have ha := hround.deposited
      have hid : id ≤ s.tokenId := by
        by_contra hlt
        exact hround.locked (hv.unused id token (by omega))
      obtain ⟨hsame, hamounts⟩ := depositFor_merge ha rfl hround.share_ne
      have hsame : SameTokens s sa := ⟨hsame.erc20, hsame.tokens, hsame.tokenId⟩
      have hzero := hfresh token List.mem_cons_self
      have hmove : Conserves cfg s sa := by
        have hnew := depositFor_newUntouched ha hnewId
        refine move_conserves hid hnewId hsame hnew hne (Nat.sub_add_cancel hround.share_le) ?_ hv
        rw [hzero]
        exact hamounts
      -- the remaining tokens differ from the one just credited
      have hfresh' : ∀ t ∈ rest, sa.lockedAmounts newId t = 0 := by
        intro t ht
        have htne : t ≠ token := fun e => hnotin (e ▸ ht)
        rw [hamounts]
        dsimp only
        rw [update2_row, Function.update_of_ne htne, update2_of_ne hne.symm]
        exact hfresh t (List.mem_cons_of_mem _ ht)
      obtain ⟨hrest, hsame'⟩ := ih h hnodup' hfresh' (hsame.tokenId.symm ▸ hnewId) hmove.vault
      exact ⟨hmove.trans hrest, hsame.trans hsame'⟩

theorem split_conserves {id percent : ℕ} {received : Res Bool} (h : split cfg s env id percent received = .ok s')
    (hv : Vault cfg s) : Conserves cfg s s' := by
  obtain ⟨sb, sc, derived, hlive, hb, hc, h⟩ := split_ok h
  have hid := hv.used_of_end hlive
  have hreowned := mint_reowned hb
  have hmint := hv.nextId.trans (hreowned.conserves hv.nextId.vault)
  have hnewId : s.tokenId + 1 ≤ sb.tokenId := hreowned.tokens.tokenId.ge
  have hfresh : ∀ t ∈ sb.tokens, sb.lockedAmounts (s.tokenId + 1) t = 0 := fun t _ => by
    rw [hreowned.frame.locks.amounts]
    exact hv.unused _ t (Nat.lt_succ_self _)
  obtain ⟨hsplit, hsame'⟩ := splitTokens_conserves (by omega) sb.tokens hc hmint.vault.nodup hfresh hnewId hmint.vault
  have hderived : Conserves cfg sc { sc with
      lockedDerivedAmount := Function.update sc.lockedDerivedAmount id derived } := by
    refine SameTokens.conserves ⟨rfl, rfl, rfl⟩ rfl (fun i hi => ?_) hsplit.vault
    have htok : sc.tokenId = sb.tokenId := hsame'.tokenId
    have hi : i ≠ id := by omega
    exact ⟨Function.update_of_ne hi _ _, rfl⟩
  have hcheck := checkpointWith_conserves h hderived.vault
  exact ((hmint.trans hsplit).trans hderived).trans hcheck

/-! ### Withdrawals -/

/-- the contract's surplus over its locks does not fall, and stays if `exact` holds -/
structure Covers (cfg : Config) (s s' : State) (exact : Prop) : Prop where
  vault : Vault cfg s'
  le : ∀ t, held cfg s t + locked s' t ≤ held cfg s' t + locked s t
  eq : exact → ∀ t, held cfg s t + locked s' t = held cfg s' t + locked s t

theorem Covers.trans {p : Prop} (h : Covers cfg s s₁ p) (h' : Covers cfg s₁ s₂ p) : Covers cfg s s₂ p := by
  refine ⟨h'.vault, fun t => ?_, fun hp t => ?_⟩
  · have h1 := h.le t
    have h2 := h'.le t
    omega
  · have h1 := h.eq hp t
    have h2 := h'.eq hp t
    omega

theorem Conserves.covers {p : Prop} (h : Conserves cfg s s') : Covers cfg s s' p :=
  ⟨h.vault, fun t => by rw [h.held, h.locked], fun _ t => by rw [h.held, h.locked]⟩

theorem Brings.covers {token : Address} {value : ℕ} {p : Prop} (h : Brings cfg s s' token value) :
    Covers cfg s s' p := by
  refine ⟨h.vault, fun t => ?_, fun _ t => ?_⟩ <;> rw [h.held, h.locked] <;> omega

/-- paying out a token -/
theorem transferUnderlyingToken_ok {token recipient : Address} {amount : ℕ}
    (h : transferUnderlyingToken cfg s token recipient amount = .ok s') (hv : Vault cfg s) :
    Vault cfg s' ∧ (∀ t, locked s' t = locked s t) ∧
      ∀ t, held cfg s' t + (if t = token then amount else 0) =
        held cfg s t + if t = token ∧ cfg.self = recipient then amount else 0 := by
  obtain ⟨t', ht, h⟩ := bind_ok.1 h
  cases h
  obtain ⟨-, -, hallow, -⟩ := ERC20.transfer_ok ht
  have hbal := ERC20.transfer_balance ht cfg.self
  rw [if_pos rfl] at hbal
  refine ⟨⟨hv.nodup, hv.unused, hv.unlocked, fun t spender => ?_⟩, fun _ => rfl, fun t => ?_⟩
  · show (Function.update s.erc20 token t' t).allowance cfg.self spender = 0
    by_cases htok : t = token
    · subst htok
      rw [Function.update_self, hallow]
      exact hv.allowance t spender
    · rw [Function.update_of_ne htok]
      exact hv.allowance t spender
  · show (Function.update s.erc20 token t' t).balanceOf cfg.self + _ = _
    by_cases htok : t = token
    · subst htok
      rw [Function.update_self, if_pos rfl, hbal]
      simp only [true_and]
      rfl
    · rw [Function.update_of_ne htok, if_neg htok, if_neg fun e => htok e.1]
      rfl

theorem withdraw_covers {token : Address} {id : ℕ} (h : withdraw cfg s env token id = .ok s') (hv : Vault cfg s) :
    Covers cfg s s' (env.sender ≠ cfg.self) := by
  obtain ⟨derived, sa, sb, -, hpos, ha, hb, h⟩ := withdraw_ok h
  have hid : id ≤ s.tokenId := by
    by_contra hlt
    rw [hv.unused id token (by omega)] at hpos
    omega
  -- the lock is cleared
  have hclear : Vault cfg { s with
      lockedEnd := Function.update s.lockedEnd id (if derived = 0 then 0 else s.lockedEnd id)
      lockedDerivedAmount := Function.update s.lockedDerivedAmount id derived
      lockedAmounts := update2 s.lockedAmounts id token 0 } :=
    hv.write hid ⟨rfl, rfl, rfl⟩
      (fun i hi => ⟨Function.update_of_ne (by omega) _ _, Function.update_of_ne (by omega) _ _⟩) rfl
  have hlocked := locked_write (v := 0) s { s with
      lockedEnd := Function.update s.lockedEnd id (if derived = 0 then 0 else s.lockedEnd id)
      lockedDerivedAmount := Function.update s.lockedDerivedAmount id derived
      lockedAmounts := update2 s.lockedAmounts id token 0 } hid rfl rfl rfl
  have hcheck := checkpointWith_conserves ha hclear
  have hburn := hcheck.trans ((burnIfEmpty_reowned hb).conserves hcheck.vault)
  obtain ⟨hvault, hlocked', hheld⟩ := transferUnderlyingToken_ok h hburn.vault
  -- the sums after the payout, in terms of those before the call
  have hsum : ∀ t, locked s' t + (if t = token then s.lockedAmounts id token else 0) = locked s t := by
    intro t
    have h1 := hlocked t
    rw [← hburn.locked t, ← hlocked' t] at h1
    simpa using h1
  have hheld' : ∀ t, held cfg s' t + (if t = token then s.lockedAmounts id token else 0) =
      held cfg s t + if t = token ∧ cfg.self = env.sender then s.lockedAmounts id token else 0 := by
    intro t
    have h1 := hheld t
    rwa [hburn.held t] at h1
  refine ⟨hvault, fun t => ?_, fun hne t => ?_⟩
  · have h1 := hsum t
    have h2 := hheld' t
    omega
  · have h1 := hsum t
    have h2 := hheld' t
    have hother : ¬ (t = token ∧ cfg.self = env.sender) := fun e => hne e.2.symm
    rw [if_neg hother] at h2
    omega

theorem withdrawTokens_covers {id : ℕ} (tokens : List Address) (h : withdrawTokens cfg env id tokens s = .ok s') :
    Vault cfg s → Covers cfg s s' (env.sender ≠ cfg.self) :=
  withdrawTokens_rel (R := fun s s' => Vault cfg s → Covers cfg s s' (env.sender ≠ cfg.self))
    (fun _ hv => (Conserves.refl hv).covers) (fun h h' hv => (h hv).trans (h' (h hv).vault)) withdraw_covers tokens h

/-! ## Calls -/

/-- somebody sends a staking token to the contract directly -/
def Gives (cfg : Config) : Call → Prop
  | .tokenTransfer _ dst _ => dst = cfg.self
  | .tokenTransferFrom _ _ dst _ => dst = cfg.self
  | _ => False

/-- a call that changes one token's balances and approvals only -/
theorem erc20_covers {token : Address} {t' : ERC20} {p : Prop} (hv : Vault cfg s)
    (hallow : ∀ x, t'.allowance cfg.self x = 0) (hle : (s.erc20 token).balanceOf cfg.self ≤ t'.balanceOf cfg.self)
    (heq : p → (s.erc20 token).balanceOf cfg.self = t'.balanceOf cfg.self) :
    Covers cfg s { s with erc20 := Function.update s.erc20 token t' } p := by
  refine ⟨⟨hv.nodup, hv.unused, hv.unlocked, fun t spender => ?_⟩, fun t => ?_, fun hp t => ?_⟩
  · show (Function.update s.erc20 token t' t).allowance cfg.self spender = 0
    by_cases ht : t = token
    · subst ht
      rw [Function.update_self]
      exact hallow spender
    · rw [Function.update_of_ne ht]
      exact hv.allowance t spender
  · show held cfg s t + locked s t ≤ (Function.update s.erc20 token t' t).balanceOf cfg.self + locked s t
    by_cases ht : t = token
    · subst ht
      rw [Function.update_self]
      exact Nat.add_le_add_right hle _
    · rw [Function.update_of_ne ht]
      exact le_rfl
  · show held cfg s t + locked s t = (Function.update s.erc20 token t' t).balanceOf cfg.self + locked s t
    by_cases ht : t = token
    · subst ht
      rw [Function.update_self, ← heq hp]
      rfl
    · rw [Function.update_of_ne ht]
      rfl

/-- **One call.** The contract's surplus over its locks does not fall, and does not change unless the call is a gift. -/
theorem exec_surplus {call : Call} (h : exec cfg s env call = .ok s') (hv : Vault cfg s) :
    Covers cfg s s' (env.sender ≠ cfg.self ∧ ¬ Gives cfg call) := by
  cases call with
  | createLockFor token value d dst received =>
    obtain ⟨⟨sa, id⟩, ha, h⟩ := bind_ok.1 h
    cases h
    exact (createLockFor_brings ha hv).covers
  | createLock token value d received =>
    obtain ⟨⟨sa, id⟩, ha, h⟩ := bind_ok.1 h
    cases h
    exact (createLockFor_brings ha hv).covers
  | increaseAmount token id value => exact (increaseAmount_brings h hv).covers
  | increaseUnlockTime id d =>
    obtain ⟨⟨sa, power, date⟩, ha, h⟩ := bind_ok.1 h
    cases h
    exact (increaseUnlockTime_conserves ha hv).covers
  | merge src dst => exact (merge_conserves h hv).covers
  | split id percent received => exact (split_conserves h hv).covers
  | withdraw token id =>
    have hc := withdraw_covers h hv
    exact ⟨hc.vault, hc.le, fun hp => hc.eq hp.1⟩
  | withdrawAll id =>
    have hc := withdrawTokens_covers s.tokens h hv
    exact ⟨hc.vault, hc.le, fun hp => hc.eq hp.1⟩
  | checkpoint =>
    have h : checkpointWith s env ⟨0, 0, 0, 0, 0⟩ = .ok s' := h
    exact (checkpointWith_conserves h hv).covers
  | safeTransferFrom src dst id received =>
    exact ((safeTransferFrom_reowned h).conserves hv).covers
  | approve approved id =>
    exact ((approve_reowned h).conserves hv).covers
  | setApprovalForAll operator approved =>
    simp only [exec, setApprovalForAll, require_bind, pure_ok] at h
    obtain ⟨-, rfl⟩ := h
    refine Conserves.covers ?_
    exact SameTokens.conserves ⟨rfl, rfl, rfl⟩ rfl (fun _ _ => ⟨rfl, rfl⟩) hv
  | announceAction type =>
    simp only [exec, announceAction, require_bind, uadd_bind, pure_ok] at h
    obtain ⟨-, -, -, rfl⟩ := h
    refine Conserves.covers ?_
    exact SameTokens.conserves ⟨rfl, rfl, rfl⟩ rfl (fun _ _ => ⟨rfl, rfl⟩) hv
  | whitelistTransferFor value =>
    simp only [exec, whitelistTransferFor, require_bind, pure_ok] at h
    obtain ⟨-, -, -, rfl⟩ := h
    refine Conserves.covers ?_
    exact SameTokens.conserves ⟨rfl, rfl, rfl⟩ rfl (fun _ _ => ⟨rfl, rfl⟩) hv
  | addToken token weight =>
    simp only [exec, addToken, require_bind, pure_ok] at h
    obtain ⟨-, -, -, -, hnew, rfl⟩ := h
    refine Conserves.covers ⟨⟨?_, hv.unused, hv.unlocked, hv.allowance⟩, fun _ => rfl, fun _ => rfl⟩
    exact List.nodup_append.2 ⟨hv.nodup, List.nodup_singleton _, fun a ha b hb => by
      rw [List.mem_singleton.1 hb]
      rintro rfl
      exact hnew ha⟩
  | tokenTransfer token dst amount =>
    simp only [exec, require_bind] at h
    obtain ⟨hne, h⟩ := h
    obtain ⟨t', ht, h⟩ := bind_ok.1 h
    cases h
    obtain ⟨-, -, hallow, -⟩ := ERC20.transfer_ok ht
    have hbal := ERC20.transfer_other ht (Ne.symm hne)
    refine erc20_covers hv (by rw [hallow]; exact hv.allowance token) (by omega) fun hp => ?_
    rw [hbal, if_neg fun e => hp.2 e.symm, Nat.add_zero]
  | tokenTransferFrom token src dst amount =>
    simp only [exec, require_bind] at h
    obtain ⟨-, h⟩ := h
    obtain ⟨t', ht, h⟩ := bind_ok.1 h
    cases h
    obtain ⟨hallow, hbal, -⟩ := ERC20.transferFrom_unapproved ht (hv.allowance token)
    refine erc20_covers hv hallow (by omega) fun hp => ?_
    rw [hbal, if_neg fun e => hp.2 e.symm, Nat.add_zero]
  | tokenApprove token spender amount =>
    simp only [exec, require_bind] at h
    obtain ⟨hne, h⟩ := h
    obtain ⟨t', ht, h⟩ := bind_ok.1 h
    cases h
    obtain ⟨hbal, -, hallow⟩ := ERC20.approve_ok ht
    refine erc20_covers hv (fun x => ?_) (by rw [hbal]) fun _ => by rw [hbal]
    rw [hallow, Function.update_of_ne (Ne.symm hne)]
    exact hv.allowance token x

theorem deploy_vault (env : Env) {erc20 : Address → ERC20} (shady : Address)
    (h : ∀ token spender, (erc20 token).allowance cfg.self spender = 0) : Vault cfg (deploy env erc20 shady) :=
  ⟨List.nodup_singleton _, fun _ _ _ => rfl, fun _ _ => ⟨rfl, rfl⟩, h⟩

theorem deploy_locked (env : Env) (erc20 : Address → ERC20) (shady token : Address) :
    locked (deploy env erc20 shady) token = 0 := by
  simp [locked, deploy]

/-- what a successful operation on locks does to the locked amounts and to the contract's balances -/
def Recorded (cfg : Config) (s s' : State) : Call → Prop
  | .createLockFor token value _ _ _ | .createLock token value _ _ | .increaseAmount token _ value => ∀ t,
    locked s' t = locked s t + (if t = token then value else 0) ∧
      held cfg s' t = held cfg s t + if t = token then value else 0
  | .merge _ _ | .split _ _ _ => ∀ t, locked s' t = locked s t ∧ held cfg s' t = held cfg s t
  | _ => True

theorem exec_recorded {call : Call} (h : exec cfg s env call = .ok s') (hv : Vault cfg s) :
    Recorded cfg s s' call := by
  cases call with
  | createLockFor token value d dst received =>
    obtain ⟨⟨sa, id⟩, ha, h⟩ := bind_ok.1 h
    cases h
    have hb := createLockFor_brings ha hv
    exact fun t => ⟨hb.locked t, hb.held t⟩
  | createLock token value d received =>
    obtain ⟨⟨sa, id⟩, ha, h⟩ := bind_ok.1 h
    cases h
    have hb := createLockFor_brings ha hv
    exact fun t => ⟨hb.locked t, hb.held t⟩
  | increaseAmount token id value =>
    have hb := increaseAmount_brings h hv
    exact fun t => ⟨hb.locked t, hb.held t⟩
  | merge src dst =>
    have hc := merge_conserves h hv
    exact fun t => ⟨hc.locked t, hc.held t⟩
  | split id percent received =>
    have hc := split_conserves h hv
    exact fun t => ⟨hc.locked t, hc.held t⟩
  | _ => trivial

/-- the sum over any ids is at most the sum over all ids given out -/
theorem Vault.sum_le_locked (hv : Vault cfg s) (token : Address) (J : Finset ℕ) :
    ∑ id ∈ J, s.lockedAmounts id token ≤ locked s token := by
  have hout : ∀ id ∈ J, id ∉ J ∩ ids s → s.lockedAmounts id token = 0 := by
    intro id hid hnot
    refine hv.unused id token ?_
    by_contra hle
    exact hnot (Finset.mem_inter.2 ⟨hid, Finset.mem_range.2 (by omega)⟩)
  rw [← Finset.sum_subset Finset.inter_subset_left hout]
  exact Finset.sum_le_sum_of_subset Finset.inter_subset_right

/-- **Principal is held.** After any calls, for every staking token: the locked amounts of any NFTs together are at most
the contract's balance; if the contract held none of it before and nobody sends it any directly, the locked amounts of
all NFTs are the balance; and `createLock`, `createLockFor` and `increaseAmount` bring in exactly what they record,
while `merge` and `split` change neither sum. -/
theorem locked_le_balance (cfg : Config) (env₀ : Env) (erc20 : Address → ERC20) (shady : Address)
    (calls : List (Env × Call)) (hfresh : ∀ token spender, (erc20 token).allowance cfg.self spender = 0) :
    let s := run (execIn cfg) (deploy env₀ erc20 shady) calls
    (∀ token (J : Finset ℕ), ∑ id ∈ J, s.lockedAmounts id token ≤ (s.erc20 token).balanceOf cfg.self) ∧
    (∀ token, (erc20 token).balanceOf cfg.self = 0 →
      (∀ c ∈ calls, c.1.sender ≠ cfg.self ∧ ¬ Gives cfg c.2) → locked s token = (s.erc20 token).balanceOf cfg.self) ∧
    ∀ env call s', exec cfg s env call = .ok s' → Recorded cfg s s' call := by
  intro s
  have hv₀ : Vault cfg (deploy env₀ erc20 shady) := deploy_vault env₀ shady hfresh
  -- along the run: the vault is in order and the surplus is at least the one before it
  have hrun : ∀ cs s₀, Vault cfg s₀ → Covers cfg s₀ (run (execIn cfg) s₀ cs)
      (∀ c ∈ cs, c.1.sender ≠ cfg.self ∧ ¬ Gives cfg c.2) := by
    intro cs
    induction cs with
    | nil => exact fun s₀ hv => (Conserves.refl hv).covers
    | cons c cs ih =>
      intro s₀ hv
      have hstep : Covers cfg s₀ (commit s₀ (execIn cfg s₀ c)) (c.1.sender ≠ cfg.self ∧ ¬ Gives cfg c.2) := by
        cases h : execIn cfg s₀ c with
        | ok s₁ => exact exec_surplus h hv
        | error e => exact (Conserves.refl hv).covers
      have hrest := ih _ hstep.vault
      refine Covers.trans ⟨hstep.vault, hstep.le, fun hp => hstep.eq (hp c List.mem_cons_self)⟩
        ⟨hrest.vault, hrest.le, fun hp => hrest.eq fun d hd => hp d (List.mem_cons_of_mem _ hd)⟩
  have hc := hrun calls _ hv₀
  refine ⟨fun token J => (hc.vault.sum_le_locked token J).trans ?_, fun token h0 hp => ?_,
    fun env call s' h => exec_recorded h hc.vault⟩
  · have hle := hc.le token
    rw [deploy_locked] at hle
    exact (Nat.le_add_left _ _).trans hle
  · have heq := hc.eq hp token
    rw [deploy_locked] at heq
    have hheld : held cfg (deploy env₀ erc20 shady) token = 0 := h0
    rw [hheld, Nat.zero_add, Nat.add_zero] at heq
    exact heq

/-- account 1 locks SHADY and splits a tenth of the lock off to NFT 2 -/
def lockSplit : List (Env × Call) := [oneLock, (exampleEnv (101 * WEEK), .split 1 (10 ^ 19) (.ok true))]

/-- the two locks are what the contract holds, and merging them into the second one changes neither sum -/
theorem locked_lockSplit :
    let s := run (execIn exampleConfig) exampleDeploy lockSplit
    s.lockedAmounts 1 7 = 9 * 10 ^ 23 ∧ s.lockedAmounts 2 7 = 10 ^ 23 ∧ locked s 7 = (s.erc20 7).balanceOf 50 ∧
      ∃ s', exec exampleConfig s (exampleEnv (101 * WEEK + 1)) (.merge 1 2) = .ok s' ∧
        Recorded exampleConfig s s' (.merge 1 2) := by
  intro s
  obtain ⟨-, hheld, hrecorded⟩ :=
    locked_le_balance exampleConfig (exampleEnv (100 * WEEK)) exampleTokens 7 lockSplit exampleTokens_fresh
  refine ⟨by decide +kernel, by decide +kernel, hheld 7 rfl ?_, ?_⟩
  · intro c hc
    simp only [lockSplit, List.mem_cons, List.not_mem_nil, or_false] at hc
    rcases hc with rfl | rfl
    · exact ⟨by decide, not_false⟩
    · exact ⟨by decide, not_false⟩
  · obtain ⟨s', h⟩ : Succeeds (exec exampleConfig s (exampleEnv (101 * WEEK + 1)) (.merge 1 2)) := by decide +kernel
    exact ⟨s', h, hrecorded _ _ s' h⟩

end SimContracts.Ve
