/-
Who owns which NFT. For every address the contract keeps the number of its NFTs, their list and, for every NFT, its place in
the list. A mint and the second half of a transfer put an NFT at the end of a list, a burn and the first half of a transfer
take it out and move the last one into its place; nothing else touches owners. New ids are counted up.

Results:
  ownership_index   over every run the lists are exactly what the owners hold, and no id is minted twice
-/
import SimContracts.Core.Holdings
import SimContracts.Ve.Runs

namespace SimContracts.Ve

open Solidity

variable {cfg : Config} {s s' s₁ s₂ : State} {env : Env}

/-! ## What leaves the owners alone -/

/-- same owners, lists and approvals -/
structure SameOwners (s s' : State) : Prop where
  tokenId : s'.tokenId = s.tokenId
  owner : s'.idToOwner = s.idToOwner
  count : s'.ownerToNFTokenCount = s.ownerToNFTokenCount
  list : s'.ownerToNFTokenIdList = s.ownerToNFTokenIdList
  index : s'.tokenToOwnerIndex = s.tokenToOwnerIndex
  approvals : s'.idToApprovals = s.idToApprovals
  operators : s'.ownerToOperators = s.ownerToOperators

theorem Relocked.owners (h : Relocked s s') : SameOwners s s' := by
  obtain ⟨_, _, _, _, _, _, _, _, _, rfl⟩ := h
  exact ⟨rfl, rfl, rfl, rfl, rfl, rfl, rfl⟩

/-! ## The owners' lists -/

/-- the lists are what the owners hold, and ids not given out have no owner -/
structure Listed (s : State) : Prop where
  holdings : Holdings 0 0 s.idToOwner s.ownerToNFTokenCount s.ownerToNFTokenIdList s.tokenToOwnerIndex
  fresh : ∀ id, id = 0 ∨ s.tokenId < id → s.idToOwner id = 0

theorem SameOwners.listed (h : SameOwners s s') (hs : Listed s) : Listed s' := by
  constructor
  · rw [h.owner, h.count, h.list, h.index]
    exact hs.holdings
  · rw [h.tokenId, h.owner]
    exact hs.fresh

theorem addTokenTo_holdings {dst : Address} {id : ℕ} (h : addTokenTo s dst id = .ok s')
    (hs : Holdings 0 0 s.idToOwner s.ownerToNFTokenCount s.ownerToNFTokenIdList s.tokenToOwnerIndex)
    (hid : s.idToOwner id = 0) (hdst : dst ≠ 0) :
    Holdings 0 0 s'.idToOwner s'.ownerToNFTokenCount s'.ownerToNFTokenIdList s'.tokenToOwnerIndex ∧
      s'.idToOwner = Function.update s.idToOwner id dst := by
  simp only [addTokenTo, addTokenToOwnerList, uadd_bind, pure_ok] at h
  obtain ⟨-, rfl⟩ := h
  exact ⟨hs.give hid hdst, rfl⟩

/-- the list without an NFT: the last one is in its place, the last place is empty -/
theorem removeTokenFromOwnerList_ok {src : Address} {id : ℕ} (h : removeTokenFromOwnerList s src id = .ok s')
    (hempty : ∀ i, s.ownerToNFTokenCount src ≤ i → s.ownerToNFTokenIdList src i = 0)
    (hplace : s.tokenToOwnerIndex id < s.ownerToNFTokenCount src ∧
      s.ownerToNFTokenIdList src (s.tokenToOwnerIndex id) = id) :
    ∃ list' index', s' = { s with
        ownerToNFTokenIdList := Function.update s.ownerToNFTokenIdList src list', tokenToOwnerIndex := index' } ∧
      (∀ i, list' i = if s.ownerToNFTokenCount src - 1 ≤ i then 0 else if i = s.tokenToOwnerIndex id then
        s.ownerToNFTokenIdList src (s.ownerToNFTokenCount src - 1) else s.ownerToNFTokenIdList src i) ∧
      ∀ b, b ≠ id → index' b = if b = s.ownerToNFTokenIdList src (s.ownerToNFTokenCount src - 1) then
        s.tokenToOwnerIndex id else s.tokenToOwnerIndex b := by
  simp only [removeTokenFromOwnerList, usub_bind] at h
  obtain ⟨-, h⟩ := h
  obtain ⟨hlt, hself⟩ := hplace
  have hbehind : ∀ i, s.ownerToNFTokenCount src - 1 ≤ i → i ≠ s.ownerToNFTokenCount src - 1 →
      s.ownerToNFTokenIdList src i = 0 := fun i hle hne => hempty i (by omega)
  split_ifs at h with hlast
  · cases h
    refine ⟨_, _, rfl, fun i => ?_, fun b hb => ?_⟩
    · by_cases hi : i = s.ownerToNFTokenCount src - 1
      · rw [hi, Function.update_self, if_pos le_rfl]
      · rw [Function.update_of_ne hi, ← hlast, if_neg hi]
        split_ifs with hle
        · exact hbehind i hle hi
        · rfl
    · rw [Function.update_of_ne hb, hlast, hself, if_neg hb]
  · cases h
    refine ⟨Function.update (Function.update (s.ownerToNFTokenIdList src) (s.tokenToOwnerIndex id)
      (s.ownerToNFTokenIdList src (s.ownerToNFTokenCount src - 1))) (s.ownerToNFTokenCount src - 1) 0,
      Function.update (Function.update s.tokenToOwnerIndex (s.ownerToNFTokenIdList src (s.ownerToNFTokenCount src - 1))
        (s.tokenToOwnerIndex id)) id 0, ?_, fun i => ?_, fun b hb => ?_⟩
    · simp only [update2, Function.update_self, Function.update_idem]
    · by_cases hi : i = s.ownerToNFTokenCount src - 1
      · rw [hi, Function.update_self, if_pos le_rfl]
      · rw [Function.update_of_ne hi, Function.update_apply]
        split_ifs with hid hle hle
        · omega
        · rfl
        · exact hbehind i hle hi
        · rfl
    · rw [Function.update_of_ne hb, Function.update_apply]

theorem removeTokenFromOwnerList_count {src : Address} {id : ℕ} (h : removeTokenFromOwnerList s src id = .ok s') :
    s'.ownerToNFTokenCount = s.ownerToNFTokenCount := by
  simp only [removeTokenFromOwnerList, usub_bind] at h
  obtain ⟨-, h⟩ := h
  split_ifs at h
  · cases h
    rfl
  · cases h
    rfl

theorem removeTokenFrom_holdings {src : Address} {id : ℕ} (h : removeTokenFrom s src id = .ok s')
    (hs : Holdings 0 0 s.idToOwner s.ownerToNFTokenCount s.ownerToNFTokenIdList s.tokenToOwnerIndex) :
    Holdings 0 0 s'.idToOwner s'.ownerToNFTokenCount s'.ownerToNFTokenIdList s'.tokenToOwnerIndex ∧
      s'.idToOwner = Function.update s.idToOwner id 0 ∧ s.idToOwner id ≠ 0 := by
  simp only [removeTokenFrom, require_bind] at h
  obtain ⟨howner, h⟩ := h
  obtain ⟨s₁, h1, h⟩ := bind_ok.1 h
  simp only [usub_bind, pure_ok] at h
  obtain ⟨hcount, rfl⟩ := h
  rw [removeTokenFromOwnerList_count h1] at hcount
  have hsrc : src ≠ 0 := hs.owned hcount
  have hplace := hs.place id (howner.symm ▸ hsrc)
  rw [howner] at hplace
  obtain ⟨list', index', rfl, hlist, hindex⟩ := removeTokenFromOwnerList_ok h1 (hs.empty src) hplace
  exact ⟨hs.take howner hsrc hlist hindex, rfl, howner.symm ▸ hsrc⟩

theorem Reowned.tokenId (h : Reowned s s') : s'.tokenId = s.tokenId := h.frame.history.tokenId

theorem addTokenTo_listed {dst : Address} {id : ℕ} (h : addTokenTo s dst id = .ok s') (hs : Listed s)
    (hid : s.idToOwner id = 0) (hused : id ≠ 0 ∧ id ≤ s.tokenId) (hdst : dst ≠ 0) : Listed s' := by
  obtain ⟨hholdings, howner⟩ := addTokenTo_holdings h hs.holdings hid hdst
  refine ⟨hholdings, fun i hi => ?_⟩
  rw [(addTokenTo_reowned h).tokenId] at hi
  rw [howner, Function.update_of_ne (by omega)]
  exact hs.fresh i hi

theorem removeTokenFrom_listed {src : Address} {id : ℕ} (h : removeTokenFrom s src id = .ok s') (hs : Listed s) :
    Listed s' := by
  obtain ⟨hholdings, howner, -⟩ := removeTokenFrom_holdings h hs.holdings
  refine ⟨hholdings, fun i hi => ?_⟩
  rw [(removeTokenFrom_reowned h).tokenId] at hi
  rw [howner, Function.update_apply]
  split_ifs
  · rfl
  · exact hs.fresh i hi

/-- an NFT with an owner has been given out -/
theorem Listed.used (hs : Listed s) {id : ℕ} (h : s.idToOwner id ≠ 0) : id ≠ 0 ∧ id ≤ s.tokenId := by
  by_contra hcon
  exact h (hs.fresh id (by omega))

/-! ## Calls -/

theorem mint_listed {dst : Address} {received : Res Bool}
    (h : mint { s with tokenId := s.tokenId + 1 } dst (s.tokenId + 1) received = .ok s') (hs : Listed s) : Listed s' := by
  simp only [mint, require_bind] at h
  obtain ⟨hdst, h⟩ := h
  obtain ⟨s₁, h1, h⟩ := bind_ok.1 h
  obtain ⟨answer, -, h⟩ := bind_ok.1 h
  simp only [require_bind, pure_ok] at h
  obtain ⟨-, rfl⟩ := h
  have hnext : Listed { s with tokenId := s.tokenId + 1 } := by
    refine ⟨hs.holdings, fun i hi => hs.fresh i ?_⟩
    have hi' : i = 0 ∨ s.tokenId + 1 < i := hi
    omega
  exact addTokenTo_listed h1 hnext (hs.fresh _ (.inr (Nat.lt_succ_self _))) ⟨Nat.succ_ne_zero _, le_rfl⟩ hdst

theorem approve_listed {approved : Address} {id : ℕ} (h : approve s env approved id = .ok s') (hs : Listed s) :
    Listed s' := by
  simp only [approve, require_bind, pure_ok] at h
  obtain ⟨-, -, -, rfl⟩ := h
  exact ⟨hs.holdings, hs.fresh⟩

theorem burn_listed {id : ℕ} (h : burn s env id = .ok s') (hs : Listed s) : Listed s' := by
  obtain ⟨s₁, h1, h2⟩ := bind_ok.1 h
  exact removeTokenFrom_listed h2 (approve_listed h1 hs)

theorem burnIfEmpty_listed {id d : ℕ} (h : burnIfEmpty s env id d = .ok s') (hs : Listed s) : Listed s' := by
  unfold burnIfEmpty at h
  split_ifs at h
  · exact burn_listed h hs
  · cases h
    exact hs

/-- a transfer, also to the owner itself: the NFT leaves one list and goes to the end of the other -/
theorem safeTransferFrom_listed {src dst : Address} {id : ℕ} {received : Res Bool}
    (h : safeTransferFrom s env src dst id received = .ok s') (hs : Listed s) : Listed s' := by
  simp only [safeTransferFrom, transferFrom, require_bind] at h
  obtain ⟨-, h⟩ := h
  obtain ⟨s₁, h1, h⟩ := bind_ok.1 h
  obtain ⟨answer, -, h⟩ := bind_ok.1 h
  simp only [require_bind, pure_ok] at h h1
  obtain ⟨-, rfl⟩ := h
  obtain ⟨-, hdst, h1⟩ := h1
  obtain ⟨s₂, h2, h1⟩ := bind_ok.1 h1
  obtain ⟨s₃, h3, h1⟩ := bind_ok.1 h1
  cases h1
  have hcleared : Listed { s with idToApprovals := Function.update s.idToApprovals id 0 } := ⟨hs.holdings, hs.fresh⟩
  obtain ⟨-, howner, hne⟩ := removeTokenFrom_holdings h2 hs.holdings
  have hgone : s₂.idToOwner id = 0 := by rw [howner, Function.update_self]
  have hadded := addTokenTo_listed h3 (removeTokenFrom_listed h2 hcleared) hgone
    ((removeTokenFrom_reowned h2).tokenId ▸ hs.used hne) hdst
  exact ⟨hadded.holdings, hadded.fresh⟩

theorem withdraw_listed {token : Address} {id : ℕ} (h : withdraw cfg s env token id = .ok s') (hs : Listed s) :
    Listed s' ∧ s'.tokenId = s.tokenId := by
  obtain ⟨derived, s₁, s₂, hw⟩ := withdraw_ok h
  have hchecked := hw.relocked.owners
  have hpaid := (transferUnderlyingToken_rebalanced hw.paid).relocked.owners
  exact ⟨hpaid.listed (burnIfEmpty_listed hw.burned (hchecked.listed hs)),
    hpaid.tokenId.trans ((burnIfEmpty_reowned hw.burned).tokenId.trans hchecked.tokenId)⟩

theorem withdrawTokens_listed {id : ℕ} (tokens : List Address) (h : withdrawTokens cfg env id tokens s = .ok s') :
    Listed s → Listed s' ∧ s'.tokenId = s.tokenId := by
  refine withdrawTokens_rel (R := fun s s' => Listed s → Listed s' ∧ s'.tokenId = s.tokenId) (fun _ hs => ⟨hs, rfl⟩)
    (fun h h' hs => ?_) withdraw_listed tokens h
  obtain ⟨hs₁, htoken⟩ := h hs
  obtain ⟨hs₂, htoken'⟩ := h' hs₁
  exact ⟨hs₂, htoken'.trans htoken⟩

/-- the id that a call mints, if it mints one (`CreateSteps.minted`, `SplitSteps.minted`) -/
def mintedBy (s : State) : Call → List ℕ
  | .createLockFor _ _ _ _ _ | .createLock _ _ _ _ | .split _ _ _ => [s.tokenId + 1]
  | _ => []

theorem createLockFor_listed {token dst : Address} {value d id : ℕ} {received : Res Bool}
    (h : createLockFor cfg s env token value d dst received = .ok (s', id)) (hs : Listed s) :
    Listed s' ∧ s'.tokenId = s.tokenId + 1 := by
  obtain ⟨unlockTime, s₁, hc⟩ := createLockFor_ok h
  have hdeposited := (depositFor_relocked hc.deposited).owners
  exact ⟨hdeposited.listed (mint_listed hc.minted hs), hdeposited.tokenId.trans (mint_reowned hc.minted).tokenId⟩

theorem exec_listed {call : Call} (h : exec cfg s env call = .ok s') (hs : Listed s) :
    Listed s' ∧ s'.tokenId = s.tokenId + (mintedBy s call).length := by
  cases call with
  | createLockFor token value d dst received =>
    obtain ⟨⟨_, id⟩, h1, ⟨⟩⟩ := bind_ok.1 h
    exact createLockFor_listed h1 hs
  | createLock token value d received =>
    obtain ⟨⟨_, id⟩, h1, ⟨⟩⟩ := bind_ok.1 h
    exact createLockFor_listed h1 hs
  | increaseAmount token id value =>
    have hsame := (depositFor_relocked (increaseAmount_ok h).deposited).owners
    exact ⟨hsame.listed hs, hsame.tokenId⟩
  | increaseUnlockTime id d =>
    obtain ⟨⟨_, power, date⟩, h1, ⟨⟩⟩ := bind_ok.1 h
    obtain ⟨unlockTime, hsteps⟩ := increaseUnlockTime_ok h1
    have hsame := (depositFor_relocked hsteps.deposited).owners
    exact ⟨hsame.listed hs, hsame.tokenId⟩
  | merge src dst =>
    obtain ⟨s₁, s₂, hm⟩ := merge_ok h
    have hsame := hm.relocked.owners
    exact ⟨burn_listed hm.burned (hsame.listed hs), (burn_reowned hm.burned).tokenId.trans hsame.tokenId⟩
  | split id percent received =>
    obtain ⟨s₁, s₂, derived, hsp⟩ := split_ok h
    have hsame := hsp.relocked.owners
    exact ⟨hsame.listed (mint_listed hsp.minted hs), hsame.tokenId.trans (mint_reowned hsp.minted).tokenId⟩
  | withdraw token id => exact withdraw_listed h hs
  | withdrawAll id => exact withdrawTokens_listed _ h hs
  | checkpoint =>
    change checkpointWith s env ⟨0, 0, 0, 0, 0⟩ = .ok s' at h
    have hsame := (checkpointWith_relocked h).owners
    exact ⟨hsame.listed hs, hsame.tokenId⟩
  | safeTransferFrom src dst id received =>
    exact ⟨safeTransferFrom_listed h hs, (safeTransferFrom_reowned h).tokenId⟩
  | approve approved id => exact ⟨approve_listed h hs, (approve_reowned h).tokenId⟩
  | setApprovalForAll operator approved =>
    simp only [exec, setApprovalForAll, require_bind, pure_ok] at h
    obtain ⟨-, rfl⟩ := h
    exact ⟨⟨hs.holdings, hs.fresh⟩, rfl⟩
  | announceAction type =>
    simp only [exec, announceAction, require_bind, uadd_bind, pure_ok] at h
    obtain ⟨-, -, -, rfl⟩ := h
    exact ⟨⟨hs.holdings, hs.fresh⟩, rfl⟩
  | whitelistTransferFor value =>
    simp only [exec, whitelistTransferFor, require_bind, pure_ok] at h
    obtain ⟨-, -, -, rfl⟩ := h
    exact ⟨⟨hs.holdings, hs.fresh⟩, rfl⟩
  | addToken token weight =>
    simp only [exec, addToken, require_bind, pure_ok] at h
    obtain ⟨-, -, -, -, -, rfl⟩ := h
    exact ⟨⟨hs.holdings, hs.fresh⟩, rfl⟩
  | tokenTransfer token dst amount | tokenTransferFrom token src dst amount | tokenApprove token spender amount =>
    obtain ⟨-, h⟩ := require_bind.1 h
    obtain ⟨_, -, ⟨⟩⟩ := bind_ok.1 h
    exact ⟨⟨hs.holdings, hs.fresh⟩, rfl⟩

/-! ## Runs -/

/-- the ids minted by the calls that go through, in their order -/
def minted (cfg : Config) : State → List (Env × Call) → List ℕ
  | _, [] => []
  | s, c :: calls =>
    (match execIn cfg s c with
      | .ok _ => mintedBy s c.2
      | .error _ => []) ++ minted cfg (commit s (execIn cfg s c)) calls

theorem mintedBy_eq (s : State) (call : Call) : mintedBy s call = [] ∨ mintedBy s call = [s.tokenId + 1] := by
  cases call <;> first | exact .inl rfl | exact .inr rfl

/-- along a run the lists stay exact, and the ids minted rise -/
theorem run_listed (calls : List (Env × Call)) (hs : Listed s) : Listed (run (execIn cfg) s calls) ∧
    (minted cfg s calls).Pairwise (· < ·) ∧ ∀ id ∈ minted cfg s calls, s.tokenId < id := by
  induction calls generalizing s with
  | nil => exact ⟨hs, .nil, nofun⟩
  | cons c calls ih =>
    rw [run_cons, minted]
    cases hexec : execIn cfg s c with
    | error e => exact ih hs
    | ok s' =>
      obtain ⟨hs', htoken⟩ := exec_listed hexec hs
      obtain ⟨hrun, hsorted, hlater⟩ := ih hs'
      refine ⟨hrun, ?_⟩
      simp only [commit] at hsorted hlater ⊢
      rcases mintedBy_eq s c.2 with hnone | hone
      · rw [hnone, List.length_nil, Nat.add_zero] at htoken
        rw [hnone, List.nil_append, ← htoken]
        exact ⟨hsorted, hlater⟩
      · rw [hone, List.length_singleton] at htoken
        rw [hone]
        have hid' : ∀ id ∈ minted cfg s' calls, s.tokenId + 1 < id := htoken ▸ hlater
        refine ⟨List.pairwise_cons.2 ⟨hid', hsorted⟩, fun id hid => ?_⟩
        rcases List.mem_cons.1 hid with rfl | hid
        · exact Nat.lt_succ_self _
        · exact (Nat.lt_succ_self _).trans (hid' id hid)

theorem deploy_listed (env : Env) (erc20 : Address → ERC20) (shady : Address) : Listed (deploy env erc20 shady) :=
  ⟨.nil _ _ _, fun _ _ => rfl⟩

/-- **The index of owners is exact.** After every run the list of an address has, without repetition, the NFTs that it
owns, each at its place, and nothing behind them; and no id was minted twice. An id owned by the zero address is no NFT. -/
theorem ownership_index (cfg : Config) (env₀ : Env) (erc20 : Address → ERC20) (shady : Address) (calls : List (Env × Call)) :
    let s := run (execIn cfg) (deploy env₀ erc20 shady) calls
    (∀ o id, (∃ i < s.ownerToNFTokenCount o, s.ownerToNFTokenIdList o i = id) ↔ s.idToOwner id = o ∧ s.idToOwner id ≠ 0) ∧
      (∀ o i j, i < s.ownerToNFTokenCount o → j < s.ownerToNFTokenCount o →
        s.ownerToNFTokenIdList o i = s.ownerToNFTokenIdList o j → i = j) ∧
      (∀ o i, s.ownerToNFTokenCount o ≤ i → s.ownerToNFTokenIdList o i = 0) ∧
      (∀ o i, i < s.ownerToNFTokenCount o → s.tokenToOwnerIndex (s.ownerToNFTokenIdList o i) = i) ∧
      (∀ id, s.idToOwner id ≠ 0 → s.ownerToNFTokenIdList (s.idToOwner id) (s.tokenToOwnerIndex id) = id) ∧
      (minted cfg (deploy env₀ erc20 shady) calls).Nodup := by
  intro s
  have hrun : Listed s ∧ (minted cfg (deploy env₀ erc20 shady) calls).Pairwise (· < ·) ∧ _ :=
    run_listed calls (deploy_listed env₀ erc20 shady)
  obtain ⟨hs, hsorted, -⟩ := hrun
  have hh := hs.holdings
  exact ⟨fun o id => hh.mem_iff, fun o i j hi hj he => hh.inj hi hj he, hh.empty, fun o i hi => (hh.listed o i hi).2,
    fun id hid => (hh.place id hid).2, hsorted.imp fun h => h.ne⟩

end SimContracts.Ve
