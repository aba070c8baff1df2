/-
What each call does to the locks, entry by entry: the locked amounts of every NFT and token, and the lock ends.

A call deposits for one NFT under an end that it does not lower, moves amounts from one NFT whose lock is not over to
another that ends no earlier, pays out of one NFT whose lock is over, or leaves all locks alone (`Effect`).

Results:
  exec_effect   every call is one of these, at the NFTs it names
-/
import SimContracts.Ve.Principal

namespace SimContracts.Ve

open Solidity

variable {cfg : Config} {s s' s₁ s₂ : State} {env : Env}

/-! ## Valid tokens -/

/-- same token list -/
structure SameLists (s s' : State) : Prop where
  tokens : s'.tokens = s.tokens
  valid : s'.isValidToken = s.isValidToken

theorem SameLists.refl (s : State) : SameLists s s := ⟨rfl, rfl⟩

theorem Reowned.lists (h : Reowned s s') : SameLists s s' := by
  obtain ⟨_, _, _, _, _, _, rfl⟩ := h
  exact ⟨rfl, rfl⟩

theorem Relocked.lists (h : Relocked s s') : SameLists s s' := by
  obtain ⟨_, _, _, _, _, _, _, _, _, rfl⟩ := h
  exact ⟨rfl, rfl⟩

theorem SameLists.trans (h : SameLists s s₁) (h' : SameLists s₁ s₂) : SameLists s s₂ :=
  ⟨h'.tokens.trans h.tokens, h'.valid.trans h.valid⟩

/-! ## Deposits -/

/-- what a deposit writes: the amount, if it is not zero, and the end, if one is given -/
structure Writes (s s' : State) (info : DepositInfo) : Prop where
  amounts : s'.lockedAmounts = if info.value ≠ 0 then
    update2 s.lockedAmounts info.tokenId info.stakingToken (info.lockedAmount + info.value) else s.lockedAmounts
  ends : s'.lockedEnd = if info.unlockTime ≠ 0 then Function.update s.lockedEnd info.tokenId info.unlockTime
    else s.lockedEnd
  tokenId : s'.tokenId = s.tokenId
  tokens : s'.tokens = s.tokens
  valid : s'.isValidToken = s.isValidToken

theorem depositFor_writes {info : DepositInfo} (h : depositFor cfg s env info = .ok s') : Writes s s' info := by
  obtain ⟨derived, s₁, hs⟩ := depositFor_steps h
  have hlocks := (checkpointWith_locks hs.checked).1
  have hframe := (depositTokens_rebalanced hs.pulled).frame.locks
  have hlists := (depositFor_relocked h).lists
  exact ⟨hframe.amounts.trans hlocks.amounts, hframe.ends.trans hlocks.ends, (depositFor_others h).2.1, hlists.tokens,
    hlists.valid⟩

/-! ## Moving amounts between two NFTs -/



theorem Writes.lists {info : DepositInfo} (h : Writes s s' info) : SameLists s s' := ⟨h.tokens, h.valid⟩

/-- amounts went from `src` to `dst`, which then ends at `lockEnd` -/
structure Flow (s s' : State) (src dst lockEnd : ℕ) : Prop where
  others : ∀ i, i ≠ src → i ≠ dst → s'.lockedAmounts i = s.lockedAmounts i
  sum : ∀ t, s'.lockedAmounts src t + s'.lockedAmounts dst t = s.lockedAmounts src t + s.lockedAmounts dst t
  le : ∀ t, s.lockedAmounts dst t ≤ s'.lockedAmounts dst t
  ends : ∀ i, i ≠ dst → s'.lockedEnd i = s.lockedEnd i
  /-- the end is written with the first amount -/
  dstEnd : s'.lockedEnd dst = lockEnd ∨
    s'.lockedEnd dst = s.lockedEnd dst ∧ s'.lockedAmounts dst = s.lockedAmounts dst

variable {src dst lockEnd : ℕ}

theorem Flow.refl : Flow s s src dst lockEnd :=
  ⟨fun _ _ _ => rfl, fun _ => rfl, fun _ => le_rfl, fun _ _ => rfl, .inr ⟨rfl, rfl⟩⟩

theorem Flow.trans (h : Flow s s₁ src dst lockEnd) (h' : Flow s₁ s₂ src dst lockEnd) : Flow s s₂ src dst lockEnd := by
  refine ⟨fun i hs hd => (h'.others i hs hd).trans (h.others i hs hd), fun t => (h'.sum t).trans (h.sum t),
    fun t => (h.le t).trans (h'.le t), fun i hd => (h'.ends i hd).trans (h.ends i hd), ?_⟩
  rcases h'.dstEnd with hend | ⟨hend, hamounts⟩
  · exact .inl hend
  · rw [hend, hamounts]
    exact h.dstEnd

theorem Flow.src_le (h : Flow s s' src dst lockEnd) (t : Address) : s'.lockedAmounts src t ≤ s.lockedAmounts src t := by
  have hsum := h.sum t
  have hle := h.le t
  omega

/-- one token of a merge or a split -/
theorem Writes.flow {token : Address} {left : ℕ} {info : DepositInfo}
    (h : Writes { s with lockedAmounts := update2 s.lockedAmounts src token left } s' info) (hne : src ≠ dst)
    (hdst : info.tokenId = dst) (htoken : info.stakingToken = token)
    (hamount : info.lockedAmount = s.lockedAmounts dst token) (hvalue : info.value ≠ 0)
    (hunlock : info.unlockTime = lockEnd) (hpos : lockEnd ≠ 0)
    (hleft : left + info.value = s.lockedAmounts src token) :
    Flow s s' src dst lockEnd ∧ s'.lockedAmounts src token = left ∧
      ∀ t, t ≠ token → s'.lockedAmounts dst t = s.lockedAmounts dst t := by
  subst hdst htoken hunlock
  have hamounts : s'.lockedAmounts = update2 (update2 s.lockedAmounts src info.stakingToken left) info.tokenId
      info.stakingToken (s.lockedAmounts info.tokenId info.stakingToken + info.value) := by
    rw [h.amounts, if_pos hvalue, hamount]
  have hends : s'.lockedEnd = Function.update s.lockedEnd info.tokenId info.unlockTime := by
    rw [h.ends, if_pos hpos]
  -- the two rows of the amounts
  have hrow : s'.lockedAmounts src = Function.update (s.lockedAmounts src) info.stakingToken left := by
    rw [hamounts, update2_of_ne hne, update2_row]
  have hrow' : s'.lockedAmounts info.tokenId = Function.update (s.lockedAmounts info.tokenId) info.stakingToken
      (s.lockedAmounts info.tokenId info.stakingToken + info.value) := by
    rw [hamounts, update2_row, update2_of_ne hne.symm]
  refine ⟨⟨fun i hs hd => ?_, fun t => ?_, fun t => ?_, fun i hd => ?_, .inl ?_⟩, ?_, fun t ht => ?_⟩
  · rw [hamounts, update2_of_ne hd, update2_of_ne hs]
  · rw [hrow, hrow']
    by_cases ht : t = info.stakingToken
    · subst ht
      rw [Function.update_self, Function.update_self]
      omega
    · rw [Function.update_of_ne ht, Function.update_of_ne ht]
  · rw [hrow']
    by_cases ht : t = info.stakingToken
    · subst ht
      rw [Function.update_self]
      omega
    · rw [Function.update_of_ne ht]
  · rw [hends, Function.update_of_ne hd]
  · rw [hends, Function.update_self]
  · rw [hrow, Function.update_self]
  · rw [hrow', Function.update_of_ne ht]

theorem mergeTokens_flow (hne : src ≠ dst) (hpos : lockEnd ≠ 0) (tokens : List Address) {e : ℕ}
    (h : mergeTokens cfg env src dst lockEnd tokens s e = .ok s') :
    SameLists s s' ∧ Flow s s' src dst lockEnd ∧ ∀ t ∈ tokens, s'.lockedAmounts src t = 0 := by
  induction tokens generalizing s e with
  | nil =>
    cases h
    exact ⟨.refl _, .refl, nofun⟩
  | cons token rest ih =>
    rcases mergeTokens_cons h with ⟨h0, h⟩ | ⟨sa, hround, h⟩
    · obtain ⟨hlists, hflow, hzero⟩ := ih h
      refine ⟨hlists, hflow, fun t ht => ?_⟩
      rcases List.mem_cons.1 ht with rfl | ht
      · exact Nat.le_zero.1 ((hflow.src_le t).trans_eq h0)
      · exact hzero t ht
    · have hwrites := depositFor_writes hround.deposited
      have hother : update2 s.lockedAmounts src token 0 dst token = s.lockedAmounts dst token := by
        rw [update2_of_ne hne.symm]
      obtain ⟨hmove, hcleared, -⟩ := Writes.flow (s := s) hwrites hne rfl rfl hother hround.locked rfl hpos
        (Nat.zero_add _)
      obtain ⟨hlists, hflow, hzero⟩ := ih h
      refine ⟨SameLists.trans ⟨hwrites.tokens, hwrites.valid⟩ hlists, hmove.trans hflow, fun t ht => ?_⟩
      rcases List.mem_cons.1 ht with rfl | ht
      · exact Nat.le_zero.1 ((hflow.src_le t).trans_eq hcleared)
      · exact hzero t ht

theorem splitTokens_flow {id newId percent : ℕ} (hne : id ≠ newId) (hpos : lockEnd ≠ 0) (tokens : List Address)
    {d d' : ℕ} (h : splitTokens cfg env id newId percent lockEnd tokens s d = .ok (s', d')) (hnodup : tokens.Nodup)
    (hfresh : ∀ t ∈ tokens, s.lockedAmounts newId t = 0) :
    SameLists s s' ∧ Flow s s' id newId lockEnd := by
  induction tokens generalizing s d with
  | nil =>
    cases h
    exact ⟨.refl _, .refl⟩
  | cons token rest ih =>
    obtain ⟨hnotin, hnodup⟩ := List.nodup_cons.1 hnodup
    rcases splitTokens_cons h with h | ⟨left, sa, hround, h⟩
    · exact ih h hnodup fun t ht => hfresh t (List.mem_cons_of_mem _ ht)
    · have hwrites := depositFor_writes hround.deposited
      obtain ⟨hmove, -, hrest⟩ := Writes.flow (s := s) hwrites hne rfl rfl (hfresh token List.mem_cons_self).symm
        hround.share_ne rfl hpos (Nat.sub_add_cancel hround.share_le)
      -- the remaining tokens differ from the one just moved
      have hfresh' : ∀ t ∈ rest, sa.lockedAmounts newId t = 0 := by
        intro t ht
        rw [hrest t fun e => hnotin (e ▸ ht)]
        exact hfresh t (List.mem_cons_of_mem _ ht)
      obtain ⟨hlists, hflow⟩ := ih h hnodup hfresh'
      exact ⟨SameLists.trans ⟨hwrites.tokens, hwrites.valid⟩ hlists, hmove.trans hflow⟩

/-! ## Calls -/

/-- amounts of one NFT whose lock is over were paid out -/
structure PaidOut (now : ℕ) (s s' : State) (id : ℕ) : Prop where
  tokenId : s'.tokenId = s.tokenId
  others : ∀ i, i ≠ id → s'.lockedAmounts i = s.lockedAmounts i
  amounts : ∀ t, s'.lockedAmounts id t = s.lockedAmounts id t ∨ s'.lockedAmounts id t = 0
  ends : ∀ i, i ≠ id → s'.lockedEnd i = s.lockedEnd i
  idEnd : s'.lockedEnd id = s.lockedEnd id ∨ s'.lockedEnd id = 0
  past : s' = s ∨ s.lockedEnd id ≤ now

/-- a multiple of a week after `now`, at most 16 weeks -/
structure UnlockTime (now unlock : ℕ) : Prop where
  aligned : unlock % WEEK = 0
  later : now < unlock
  near : unlock ≤ now + MAX_TIME

/-- what a call does to the locked amounts and the lock ends -/
def Effect (env : Env) (s s' : State) : Call → Prop
  | .createLockFor token value _ _ _ | .createLock token value _ _ =>
    s.isValidToken token ∧ s'.tokenId = s.tokenId + 1 ∧
      s'.lockedAmounts = update2 s.lockedAmounts (s.tokenId + 1) token value ∧
      ∃ unlock, UnlockTime env.timestamp unlock ∧ s'.lockedEnd = Function.update s.lockedEnd (s.tokenId + 1) unlock
  | .increaseAmount token id value =>
    s.isValidToken token ∧ s'.lockedAmounts = update2 s.lockedAmounts id token (s.lockedAmounts id token + value) ∧
      s'.lockedEnd = s.lockedEnd
  | .increaseUnlockTime id _ =>
    s'.lockedAmounts = s.lockedAmounts ∧ ∃ unlock, UnlockTime env.timestamp unlock ∧ s.lockedEnd id < unlock ∧
      s'.lockedEnd = Function.update s.lockedEnd id unlock
  | .merge src dst =>
    src ≠ dst ∧ env.timestamp < s.lockedEnd src ∧ env.timestamp < s.lockedEnd dst ∧
      ∃ s₁, Flow s s₁ src dst (max (s.lockedEnd src) (s.lockedEnd dst)) ∧ (∀ t ∈ s.tokens, s₁.lockedAmounts src t = 0) ∧
        s'.lockedAmounts = s₁.lockedAmounts ∧ s'.lockedEnd = Function.update s₁.lockedEnd src 0
  | .split id _ _ =>
    s'.tokenId = s.tokenId + 1 ∧ env.timestamp < s.lockedEnd id ∧ Flow s s' id (s.tokenId + 1) (s.lockedEnd id)
  | .withdraw token id =>
    s'.lockedAmounts = update2 s.lockedAmounts id token 0 ∧ PaidOut env.timestamp s s' id
  | .withdrawAll id => (∀ t ∈ s.tokens, s'.lockedAmounts id t = 0) ∧ PaidOut env.timestamp s s' id
  | _ => s'.lockedAmounts = s.lockedAmounts ∧ s'.lockedEnd = s.lockedEnd

theorem SameLocks.effect (h : SameLocks s s') : s'.lockedAmounts = s.lockedAmounts ∧ s'.lockedEnd = s.lockedEnd :=
  ⟨h.amounts, h.ends⟩

theorem createLockFor_effect {token dst : Address} {value d id : ℕ} {received : Res Bool}
    (h : createLockFor cfg s env token value d dst received = .ok (s', id)) :
    SameLists s s' ∧ Effect env s s' (.createLockFor token value d dst received) := by
  obtain ⟨unlockTime, sb, hs⟩ := createLockFor_ok h
  have hvalue := hs.value_pos
  have hlater := hs.later
  have hwrites := depositFor_writes hs.deposited
  have hreowned := mint_reowned hs.minted
  have hmint := hreowned.frame.locks
  have hlists : SameLists s sb := ⟨hreowned.lists.tokens, hreowned.lists.valid⟩
  refine ⟨hlists.trans hwrites.lists, hs.valid, hwrites.tokenId.trans hreowned.tokens.tokenId, ?_, unlockTime,
    ⟨hs.aligned, hlater, hs.near⟩, ?_⟩
  · rw [hwrites.amounts, hmint.amounts, if_pos (by dsimp only; omega), Nat.zero_add]
  · rw [hwrites.ends, hmint.ends, if_pos (by dsimp only; omega)]

theorem increaseAmount_effect {token : Address} {id value : ℕ} (h : increaseAmount cfg s env token id value = .ok s') :
    SameLists s s' ∧ Effect env s s' (.increaseAmount token id value) := by
  have hs := increaseAmount_ok h
  have hvalue := hs.value_pos
  have hwrites := depositFor_writes hs.deposited
  refine ⟨hwrites.lists, hs.valid, ?_, ?_⟩
  · rw [hwrites.amounts, if_pos (by dsimp only; omega)]
  · rw [hwrites.ends, if_neg (by simp)]

theorem increaseUnlockTime_effect {id d power date : ℕ}
    (h : increaseUnlockTime cfg s env id d = .ok (s', power, date)) :
    SameLists s s' ∧ Effect env s s' (.increaseUnlockTime id d) := by
  obtain ⟨unlockTime, hs⟩ := increaseUnlockTime_ok h
  have hlater := hs.later
  have hwrites := depositFor_writes hs.deposited
  refine ⟨hwrites.lists, ?_, unlockTime, ⟨hs.aligned, hs.live.trans hlater, hs.near⟩, hlater, ?_⟩
  · rw [hwrites.amounts, if_neg (by simp)]
  · rw [hwrites.ends, if_pos (by dsimp only; omega)]

theorem merge_effect {src dst : ℕ} (h : merge cfg s env src dst = .ok s') :
    SameLists s s' ∧ Effect env s s' (.merge src dst) := by
  obtain ⟨sa, sb, hne, hsrc, hdst, ha, hb, h⟩ := merge_ok h
  obtain ⟨hlists, hflow, hzero⟩ := mergeTokens_flow hne (by omega) s.tokens ha
  have hcheck := (checkpointWith_locks hb).1
  have hreowned := burn_reowned h
  have hburn := hreowned.frame.locks
  have hchecked := (checkpointWith_relocked hb).lists
  have hcleared : SameLists sa sb := ⟨hchecked.tokens, hchecked.valid⟩
  refine ⟨(hlists.trans hcleared).trans hreowned.lists, hne, hsrc, hdst, sa, hflow, hzero, ?_, ?_⟩
  · rw [hburn.amounts, hcheck.amounts]
  · rw [hburn.ends, hcheck.ends]

theorem split_effect {id percent : ℕ} {received : Res Bool} (hv : Vault cfg s)
    (h : split cfg s env id percent received = .ok s') :
    SameLists s s' ∧ Effect env s s' (.split id percent received) := by
  obtain ⟨sb, sc, derived, hlive, hb, hc, h⟩ := split_ok h
  have hid := hv.used_of_end hlive
  have hreowned := mint_reowned hb
  have hmint := hreowned.frame.locks
  have htokens := hreowned.tokens
  have hnodup : sb.tokens.Nodup := htokens.tokens ▸ hv.nodup
  have hfresh : ∀ t ∈ sb.tokens, sb.lockedAmounts (s.tokenId + 1) t = 0 := fun t _ => by
    rw [hmint.amounts]
    exact hv.unused _ t (Nat.lt_succ_self _)
  obtain ⟨hlists, hflow⟩ := splitTokens_flow (by omega) (by omega) sb.tokens hc hnodup hfresh
  have htokenId := (splitTokens_good (by omega) sb.tokens hc).1
  obtain ⟨hcheck, hcheckId⟩ := checkpointWith_locks h
  have hsame : s'.lockedAmounts = sc.lockedAmounts ∧ s'.lockedEnd = sc.lockedEnd := ⟨hcheck.amounts, hcheck.ends⟩
  have hminted : SameLists s sb := ⟨hreowned.lists.tokens, hreowned.lists.valid⟩
  have hchecked := (checkpointWith_relocked h).lists
  have hchecked : SameLists sc s' := ⟨hchecked.tokens, hchecked.valid⟩
  refine ⟨(hminted.trans hlists).trans hchecked, ?_, hlive, ?_⟩
  · rw [hcheckId]
    exact htokenId.trans htokens.tokenId
  · have hamounts : sb.lockedAmounts = s.lockedAmounts := hmint.amounts
    have hends : sb.lockedEnd = s.lockedEnd := hmint.ends
    obtain ⟨hothers, hsum, hle, hend, hdst⟩ := hflow
    rw [← hsame.1, hamounts] at hothers hsum hle hdst
    rw [← hsame.2, hends] at hend hdst
    exact ⟨hothers, hsum, hle, hend, hdst⟩

theorem withdraw_effect {token : Address} {id : ℕ} (h : withdraw cfg s env token id = .ok s') :
    SameLists s s' ∧ s.lockedEnd id ≤ env.timestamp ∧ Effect env s s' (.withdraw token id) := by
  obtain ⟨derived, sa, sb, hpast, -, ha, hb, h⟩ := withdraw_ok h
  have hcheck := (checkpointWith_locks ha).1
  have hreowned := burnIfEmpty_reowned hb
  have hframe := (hreowned.frame.trans (transferUnderlyingToken_rebalanced h).frame).locks
  have htokens := (checkpointWith_tokens ha).trans hreowned.tokens
  have hchecked := (checkpointWith_relocked ha).lists
  have hchecked : SameLists s sa := ⟨hchecked.tokens, hchecked.valid⟩
  have hamounts : s'.lockedAmounts = update2 s.lockedAmounts id token 0 := by
    rw [hframe.amounts, hcheck.amounts]
  have hends : s'.lockedEnd = Function.update s.lockedEnd id (if derived = 0 then 0 else s.lockedEnd id) := by
    rw [hframe.ends, hcheck.ends]
  have hpay : SameLists sb s' ∧ s'.tokenId = sb.tokenId := by
    obtain ⟨t, -, h⟩ := bind_ok.1 h
    cases h
    exact ⟨⟨rfl, rfl⟩, rfl⟩
  refine ⟨(hchecked.trans hreowned.lists).trans hpay.1, hpast, hamounts, hpay.2.trans htokens.tokenId, fun i hi => ?_,
    fun t => ?_, fun i hi => ?_, ?_, .inr hpast⟩
  · rw [hamounts, update2_of_ne hi]
  · rw [hamounts, update2_row]
    by_cases ht : t = token
    · subst ht
      exact .inr (Function.update_self ..)
    · exact .inl (Function.update_of_ne ht ..)
  · rw [hends, Function.update_of_ne hi]
  · rw [hends, Function.update_self]
    split_ifs
    · exact .inr rfl
    · exact .inl rfl

theorem PaidOut.refl {id now : ℕ} : PaidOut now s s id :=
  ⟨rfl, fun _ _ => rfl, fun _ => .inl rfl, fun _ _ => rfl, .inl rfl, .inl rfl⟩

theorem PaidOut.trans {id now : ℕ} (h : PaidOut now s s₁ id) (h' : PaidOut now s₁ s₂ id)
    (hpast : s.lockedEnd id ≤ now) : PaidOut now s s₂ id := by
  refine ⟨h'.tokenId.trans h.tokenId, fun i hi => (h'.others i hi).trans (h.others i hi), fun t => ?_,
    fun i hi => (h'.ends i hi).trans (h.ends i hi), ?_, .inr hpast⟩
  · rcases h'.amounts t with heq | hzero
    · rw [heq]
      exact h.amounts t
    · exact .inr hzero
  · rcases h'.idEnd with heq | hzero
    · rw [heq]
      exact h.idEnd
    · exact .inr hzero

theorem withdrawTokens_effect {id : ℕ} (tokens : List Address) (h : withdrawTokens cfg env id tokens s = .ok s') :
    SameLists s s' ∧ (∀ t ∈ tokens, s'.lockedAmounts id t = 0) ∧ PaidOut env.timestamp s s' id := by
  induction tokens generalizing s with
  | nil =>
    cases h
    exact ⟨.refl _, nofun, .refl⟩
  | cons token rest ih =>
    rw [withdrawTokens] at h
    split_ifs at h with hzero
    · obtain ⟨sa, ha, h⟩ := bind_ok.1 h
      obtain ⟨hlists, hpast, hamounts, hpaid⟩ := withdraw_effect ha
      obtain ⟨hlists', hrest, hpaid'⟩ := ih h
      refine ⟨hlists.trans hlists', fun t ht => ?_, hpaid.trans hpaid' hpast⟩
      rcases List.mem_cons.1 ht with rfl | ht
      · rcases hpaid'.amounts t with heq | h0
        · rw [heq, hamounts, update2_row, Function.update_self]
        · exact h0
      · exact hrest t ht
    · obtain ⟨hlists, hrest, hpaid⟩ := ih h
      refine ⟨hlists, fun t ht => ?_, hpaid⟩
      rcases List.mem_cons.1 ht with rfl | ht
      · rcases hpaid.amounts t with heq | h0
        · rw [heq]
          exact not_not.1 hzero
        · exact h0
      · exact hrest t ht

/-- the token list only grows, and a token becomes valid only when it is listed -/
structure Lists (s s' : State) : Prop where
  listed : ∀ t ∈ s.tokens, t ∈ s'.tokens
  valid : ∀ t, s'.isValidToken t → s.isValidToken t ∨ t ∈ s'.tokens

theorem SameLists.lists (h : SameLists s s') : Lists s s' :=
  ⟨fun _ ht => h.tokens ▸ ht, fun _ ht => .inl (h.valid ▸ ht)⟩

theorem exec_lists {call : Call} (hc : call.checkpoints = false) (h : exec cfg s env call = .ok s') : Lists s s' := by
  cases call with
  | safeTransferFrom src dst id received =>
    exact (safeTransferFrom_reowned h).lists.lists
  | approve approved id =>
    simp only [exec, approve, require_bind, pure_ok] at h
    obtain ⟨-, -, -, rfl⟩ := h
    exact SameLists.lists ⟨rfl, rfl⟩
  | setApprovalForAll operator approved =>
    simp only [exec, setApprovalForAll, require_bind, pure_ok] at h
    obtain ⟨-, rfl⟩ := h
    exact SameLists.lists ⟨rfl, rfl⟩
  | announceAction type =>
    simp only [exec, announceAction, require_bind, uadd_bind, pure_ok] at h
    obtain ⟨-, -, -, rfl⟩ := h
    exact SameLists.lists ⟨rfl, rfl⟩
  | whitelistTransferFor value =>
    simp only [exec, whitelistTransferFor, require_bind, pure_ok] at h
    obtain ⟨-, -, -, rfl⟩ := h
    exact SameLists.lists ⟨rfl, rfl⟩
  | addToken token weight =>
    simp only [exec, addToken, require_bind, pure_ok] at h
    obtain ⟨-, -, -, -, -, rfl⟩ := h
    refine ⟨fun t ht => List.mem_append_left _ ht, fun t ht => ?_⟩
    by_cases he : t = token
    · exact .inr (by simp [he])
    · exact .inl (by simpa [Function.update_of_ne he] using ht)
  | tokenTransfer token dst amount =>
    obtain ⟨-, h⟩ := require_bind.1 h
    obtain ⟨_, -, ⟨⟩⟩ := bind_ok.1 h
    exact SameLists.lists ⟨rfl, rfl⟩
  | tokenTransferFrom token src dst amount =>
    obtain ⟨-, h⟩ := require_bind.1 h
    obtain ⟨_, -, ⟨⟩⟩ := bind_ok.1 h
    exact SameLists.lists ⟨rfl, rfl⟩
  | tokenApprove token spender amount =>
    obtain ⟨-, h⟩ := require_bind.1 h
    obtain ⟨_, -, ⟨⟩⟩ := bind_ok.1 h
    exact SameLists.lists ⟨rfl, rfl⟩
  | _ => exact absurd hc (by simp [Call.checkpoints])

/-- **One call.** What it does to the locks, for each kind of call, and to the token list. -/
theorem exec_effect {call : Call} (hv : Vault cfg s) (h : exec cfg s env call = .ok s') :
    Lists s s' ∧ Effect env s s' call := by
  cases call with
  | createLockFor token value d dst received =>
    obtain ⟨⟨sa, id⟩, ha, h⟩ := bind_ok.1 h
    cases h
    exact (createLockFor_effect ha).imp_left SameLists.lists
  | createLock token value d received =>
    obtain ⟨⟨sa, id⟩, ha, h⟩ := bind_ok.1 h
    cases h
    exact (createLockFor_effect ha).imp_left SameLists.lists
  | increaseAmount token id value => exact (increaseAmount_effect h).imp_left SameLists.lists
  | increaseUnlockTime id d =>
    obtain ⟨⟨sa, power, date⟩, ha, h⟩ := bind_ok.1 h
    cases h
    exact (increaseUnlockTime_effect ha).imp_left SameLists.lists
  | merge src dst => exact (merge_effect h).imp_left SameLists.lists
  | split id percent received => exact (split_effect hv h).imp_left SameLists.lists
  | withdraw token id =>
    obtain ⟨hlists, -, heffect⟩ := withdraw_effect h
    exact ⟨hlists.lists, heffect⟩
  | withdrawAll id =>
    obtain ⟨hlists, heffect⟩ := withdrawTokens_effect s.tokens h
    exact ⟨hlists.lists, heffect⟩
  | checkpoint =>
    have h : checkpointWith s env ⟨0, 0, 0, 0, 0⟩ = .ok s' := h
    exact ⟨(checkpointWith_relocked h).lists.lists, (checkpointWith_locks h).1.effect⟩
  | _ => exact ⟨exec_lists rfl h, (exec_frame rfl h).locks.effect⟩

end SimContracts.Ve
