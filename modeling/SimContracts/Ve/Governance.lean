/-
The rules that the governance may change: the whitelist of accounts that NFTs can be transferred from and to, and the list of
staking tokens with their weights. Each change needs an announcement of the governance that is 18 hours old, and uses it up.

What a call does to the rules is said once (`Governs`, `exec_governs`): three calls change them, the others leave them alone.

Results:
  governed   whoever is whitelisted, and every staking token but the first, was put there by the governance, 18 hours after an
             announcement of its own
-/
import SimContracts.Ve.Authority

namespace SimContracts.Ve

open Solidity

variable {cfg : Config} {s s' s₁ s₂ : State} {env : Env} {id : ℕ}

/-! ## Calls -/

/-- same whitelist, time locks, staking tokens and weights -/
structure SameRules (s s' : State) : Prop where
  whitelist : s'.isWhitelistedTransfer = s.isWhitelistedTransfer
  timeLock : s'.govActionTimeLock = s.govActionTimeLock
  tokens : s'.tokens = s.tokens
  weights : s'.tokenWeights = s.tokenWeights

theorem SameRules.refl (s : State) : SameRules s s := ⟨rfl, rfl, rfl, rfl⟩

theorem SameRules.trans (h : SameRules s s₁) (h' : SameRules s₁ s₂) : SameRules s s₂ :=
  ⟨h'.whitelist.trans h.whitelist, h'.timeLock.trans h.timeLock, h'.tokens.trans h.tokens, h'.weights.trans h.weights⟩

theorem Relocked.rules (h : Relocked s s') : SameRules s s' := by
  obtain ⟨_, _, _, _, _, _, _, _, _, rfl⟩ := h
  exact ⟨rfl, rfl, rfl, rfl⟩

theorem Reowned.rules (h : Reowned s s') : SameRules s s' := by
  obtain ⟨_, _, _, _, _, _, rfl⟩ := h
  exact ⟨rfl, rfl, rfl, rfl⟩

theorem createLockFor_rules {token dst : Address} {value d : ℕ} {received : Res Bool}
    (h : createLockFor cfg s env token value d dst received = .ok (s', id)) : SameRules s s' := by
  obtain ⟨unlockTime, s₁, hc⟩ := createLockFor_ok h
  obtain ⟨hwhitelist, hlock, htokens, hweights⟩ := (mint_reowned hc.minted).rules
  exact SameRules.trans ⟨hwhitelist, hlock, htokens, hweights⟩ (depositFor_relocked hc.deposited).rules

theorem withdraw_rules {token : Address} (h : withdraw cfg s env token id = .ok s') : SameRules s s' := by
  obtain ⟨derived, s₁, s₂, hs⟩ := withdraw_ok h
  have hbefore := hs.relocked
  exact hbefore.rules.trans ((burnIfEmpty_reowned hs.burned).rules.trans (transferUnderlyingToken_rebalanced hs.paid).relocked.rules)

theorem withdrawTokens_rules (tokens : List Address) (h : withdrawTokens cfg env id tokens s = .ok s') : SameRules s s' :=
  withdrawTokens_rel .refl .trans withdraw_rules tokens h

/-- the announcement of an action that may be carried out -/
def Due (s : State) (type : TimeLockType) (now : ℕ) : Prop :=
  s.govActionTimeLock type ≠ 0 ∧ s.govActionTimeLock type < now

/-- what a call does to the rules -/
def Governs (env : Env) (s s' : State) : Call → Prop
  | .announceAction type => env.sender = env.governance ∧
    s' = { s with govActionTimeLock := Function.update s.govActionTimeLock type (env.timestamp + GOV_ACTION_TIME_LOCK) }
  | .whitelistTransferFor value => env.sender = env.governance ∧ Due s .WHITELIST_TRANSFER env.timestamp ∧ s' = { s with
      isWhitelistedTransfer := Function.update s.isWhitelistedTransfer value true
      govActionTimeLock := Function.update s.govActionTimeLock .WHITELIST_TRANSFER 0 }
  | .addToken token weight => env.sender = env.governance ∧ Due s .ADD_TOKEN env.timestamp ∧ token ∉ s.tokens ∧ s' = { s with
      tokens := s.tokens ++ [token]
      tokenWeights := Function.update s.tokenWeights token weight
      isValidToken := Function.update s.isValidToken token true
      govActionTimeLock := Function.update s.govActionTimeLock .ADD_TOKEN 0 }
  | _ => SameRules s s'

theorem exec_governs {call : Call} (h : exec cfg s env call = .ok s') : Governs env s s' call := by
  cases call with
  | createLockFor token value d dst received =>
    obtain ⟨⟨_, _⟩, h1, ⟨⟩⟩ := bind_ok.1 h
    exact createLockFor_rules h1
  | createLock token value d received =>
    obtain ⟨⟨_, _⟩, h1, ⟨⟩⟩ := bind_ok.1 h
    exact createLockFor_rules h1
  | increaseAmount token i value => exact (depositFor_relocked (increaseAmount_ok h).deposited).rules
  | increaseUnlockTime i d =>
    obtain ⟨⟨_, _, _⟩, h1, ⟨⟩⟩ := bind_ok.1 h
    obtain ⟨unlockTime, hs⟩ := increaseUnlockTime_ok h1
    exact (depositFor_relocked hs.deposited).rules
  | merge src dst =>
    obtain ⟨s₁, s₂, hm⟩ := merge_ok h
    have hmoved := hm.relocked
    exact hmoved.rules.trans (burn_reowned hm.burned).rules
  | split i percent received =>
    obtain ⟨s₁, s₂, derived, hs⟩ := split_ok h
    have hmoved := hs.relocked
    obtain ⟨hwhitelist, hlock, htokens, hweights⟩ := (mint_reowned hs.minted).rules
    exact SameRules.trans ⟨hwhitelist, hlock, htokens, hweights⟩ hmoved.rules
  | withdraw token i => exact withdraw_rules h
  | withdrawAll i => exact withdrawTokens_rules _ h
  | checkpoint =>
    have h : checkpointWith s env ⟨0, 0, 0, 0, 0⟩ = .ok s' := h
    exact (checkpointWith_relocked h).rules
  | safeTransferFrom src dst i received => exact (safeTransferFrom_reowned h).rules
  | approve approved i => exact (approve_reowned h).rules
  | setApprovalForAll operator approved =>
    simp only [exec, setApprovalForAll, require_bind, pure_ok] at h
    obtain ⟨-, rfl⟩ := h
    exact ⟨rfl, rfl, rfl, rfl⟩
  | announceAction type =>
    simp only [exec, announceAction, require_bind, uadd_bind, pure_ok] at h
    obtain ⟨hgovernance, -, -, rfl⟩ := h
    exact ⟨hgovernance, rfl⟩
  | whitelistTransferFor value =>
    simp only [exec, whitelistTransferFor, require_bind, pure_ok] at h
    obtain ⟨hgovernance, -, hdue, rfl⟩ := h
    exact ⟨hgovernance, hdue, rfl⟩
  | addToken token weight =>
    simp only [exec, addToken, require_bind, pure_ok] at h
    obtain ⟨hgovernance, hdue, -, -, hnew, rfl⟩ := h
    exact ⟨hgovernance, hdue, hnew, rfl⟩
  | tokenTransfer token dst amount | tokenTransferFrom token src dst amount | tokenApprove token spender amount =>
    obtain ⟨-, h⟩ := require_bind.1 h
    obtain ⟨_, -, ⟨⟩⟩ := bind_ok.1 h
    exact ⟨rfl, rfl, rfl, rfl⟩

/-! ## Announcements -/

/-- call number `j` of the history is `c`, and it goes through -/
def Made (cfg : Config) (s : State) (calls : List (Env × Call)) (j : ℕ) (c : Env × Call) : Prop :=
  calls[j]? = some c ∧ Succeeds (execIn cfg (run (execIn cfg) s (calls.take j)) c)

/-- the call that an announcement is for -/
def Call.uses (type : TimeLockType) : Call → Prop
  | .whitelistTransferFor _ => type = .WHITELIST_TRANSFER
  | .addToken _ _ => type = .ADD_TOKEN
  | _ => False

/-- the governance announced the action more than 18 hours before `time`, and no call used the announcement -/
def Announced (cfg : Config) (s : State) (calls : List (Env × Call)) (type : TimeLockType) (time : ℕ) : Prop :=
  ∃ j c, Made cfg s calls j c ∧ c.2 = .announceAction type ∧ c.1.sender = c.1.governance ∧
    c.1.timestamp + GOV_ACTION_TIME_LOCK < time ∧ ∀ i c', j < i → Made cfg s calls i c' → ¬ c'.2.uses type

/-- a time lock that is set after a call was set by it, or before and not used by it -/
theorem Governs.timeLock {call : Call} {type : TimeLockType} {lock : ℕ} (h : Governs env s s' call) (hset : lock ≠ 0)
    (hlock : s'.govActionTimeLock type = lock) :
    (call = .announceAction type ∧ env.sender = env.governance ∧ lock = env.timestamp + GOV_ACTION_TIME_LOCK) ∨
      s.govActionTimeLock type = lock ∧ ¬ call.uses type := by
  cases call with
  | announceAction type' =>
    obtain ⟨hgovernance, rfl⟩ := h
    by_cases he : type = type'
    · subst he
      simp only [Function.update_self] at hlock
      exact .inl ⟨rfl, hgovernance, hlock.symm⟩
    · exact .inr ⟨(Function.update_of_ne he _ _).symm.trans hlock, not_false⟩
  | whitelistTransferFor value =>
    obtain ⟨-, -, rfl⟩ := h
    by_cases he : type = .WHITELIST_TRANSFER
    · subst he
      simp only [Function.update_self] at hlock
      exact absurd hlock.symm hset
    · exact .inr ⟨(Function.update_of_ne he _ _).symm.trans hlock, he⟩
  | addToken token weight =>
    obtain ⟨-, -, -, rfl⟩ := h
    by_cases he : type = .ADD_TOKEN
    · subst he
      simp only [Function.update_self] at hlock
      exact absurd hlock.symm hset
    · exact .inr ⟨(Function.update_of_ne he _ _).symm.trans hlock, he⟩
  | _ =>
    have h : SameRules s s' := h
    exact .inr ⟨h.timeLock ▸ hlock, not_false⟩

/-- what is due was announced -/
theorem due_announced {calls : List (Env × Call)} {type : TimeLockType} {now : ℕ}
    (hstart : s.govActionTimeLock = fun _ => 0) (h : Due (run (execIn cfg) s calls) type now) :
    Announced cfg s calls type now := by
  obtain ⟨hset, hpast⟩ := h
  obtain ⟨j, c, hj, ⟨hcall, hgovernance, hlock⟩, hok, hsince⟩ :=
    run_issued (fun (s : State) (x : TimeLockType × ℕ) => s.govActionTimeLock x.1 = x.2 ∧ x.2 ≠ 0)
      (fun (c : Env × Call) x => c.2 = .announceAction x.1 ∧ c.1.sender = c.1.governance ∧
        x.2 = c.1.timestamp + GOV_ACTION_TIME_LOCK)
      (fun c x => c.2.uses x.1) (s := s) (x := (type, (run (execIn cfg) s calls).govActionTimeLock type))
      (fun h0 => h0.2 (h0.1.symm.trans (congrFun hstart type)))
      (fun s c s' h hp => ((exec_governs h).timeLock hp.2 hp.1).imp_right fun hp' => ⟨⟨hp'.1, hp.2⟩, hp'.2⟩) calls ⟨rfl, hset⟩
  exact ⟨j, c, ⟨hj, hok⟩, hcall, hgovernance, hlock ▸ hpast, fun i c' hi hmade => hsince i c' hi hmade.1 hmade.2⟩

/-- what is whitelisted after a call was whitelisted by it, or before -/
theorem Governs.whitelist {call : Call} {a : Address} (h : Governs env s s' call) (ha : s'.isWhitelistedTransfer a = true) :
    (call = .whitelistTransferFor a ∧ env.sender = env.governance ∧ Due s .WHITELIST_TRANSFER env.timestamp) ∨
      s.isWhitelistedTransfer a = true := by
  cases call with
  | announceAction type =>
    obtain ⟨-, rfl⟩ := h
    exact .inr ha
  | whitelistTransferFor value =>
    obtain ⟨hgovernance, hdue, rfl⟩ := h
    by_cases he : a = value
    · subst he
      exact .inl ⟨rfl, hgovernance, hdue⟩
    · exact .inr ((Function.update_of_ne he _ _).symm.trans ha)
  | addToken token weight =>
    obtain ⟨-, -, -, rfl⟩ := h
    exact .inr ha
  | _ =>
    have h : SameRules s s' := h
    exact .inr (h.whitelist ▸ ha)

/-- a token in the list after a call was added by it with its weight, or was in it with the same weight -/
theorem Governs.token {call : Call} {token : Address} (h : Governs env s s' call) (hmem : token ∈ s'.tokens) :
    (call = .addToken token (s'.tokenWeights token) ∧ env.sender = env.governance ∧ Due s .ADD_TOKEN env.timestamp) ∨
      token ∈ s.tokens ∧ s'.tokenWeights token = s.tokenWeights token := by
  cases call with
  | announceAction type =>
    obtain ⟨-, rfl⟩ := h
    exact .inr ⟨hmem, rfl⟩
  | whitelistTransferFor value =>
    obtain ⟨-, -, rfl⟩ := h
    exact .inr ⟨hmem, rfl⟩
  | addToken added weight =>
    obtain ⟨hgovernance, hdue, hnew, rfl⟩ := h
    by_cases he : token = added
    · subst he
      exact .inl ⟨by simp only [Function.update_self], hgovernance, hdue⟩
    · exact .inr ⟨by simpa [he] using hmem, Function.update_of_ne he _ _⟩
  | _ =>
    have h : SameRules s s' := h
    exact .inr ⟨h.tokens ▸ hmem, by rw [h.weights]⟩

/-! ## Main result -/

/-- **Governance.** After every run: an account is whitelisted only by a call of the governance, and every staking token but
the first is in the list, with the weight it has, by a call of the governance; and each of these calls was announced by the
governance more than 18 hours before, by an announcement that no other call had used. -/
theorem governed (cfg : Config) (env₀ : Env) (erc20 : Address → ERC20) (shady : Address) (calls : List (Env × Call)) :
    let s := run (execIn cfg) (deploy env₀ erc20 shady) calls
    (∀ a, s.isWhitelistedTransfer a = true → ∃ j c, Made cfg (deploy env₀ erc20 shady) calls j c ∧
      c.2 = .whitelistTransferFor a ∧ c.1.sender = c.1.governance ∧
      Announced cfg (deploy env₀ erc20 shady) (calls.take j) .WHITELIST_TRANSFER c.1.timestamp) ∧
    ∀ token ∈ s.tokens, token ≠ shady → ∃ j c, Made cfg (deploy env₀ erc20 shady) calls j c ∧
      c.2 = .addToken token (s.tokenWeights token) ∧ c.1.sender = c.1.governance ∧
      Announced cfg (deploy env₀ erc20 shady) (calls.take j) .ADD_TOKEN c.1.timestamp := by
  intro s
  constructor
  · intro a ha
    obtain ⟨j, c, hj, hcall, hok, -⟩ := run_issued (fun (s : State) a => s.isWhitelistedTransfer a = true)
      (fun (c : Env × Call) a => c.2 = .whitelistTransferFor a) (fun _ _ => False) (s := deploy env₀ erc20 shady) (x := a)
      (by simp [deploy]) (fun s c s' h hp => ((exec_governs h).whitelist hp).imp (·.1) fun hp' => ⟨hp', not_false⟩) calls ha
    obtain ⟨env, call⟩ := c
    obtain rfl : call = .whitelistTransferFor a := hcall
    obtain ⟨hgovernance, hdue, -⟩ := exec_governs hok.choose_spec
    exact ⟨j, _, ⟨hj, hok⟩, rfl, hgovernance, due_announced rfl hdue⟩
  · intro token hmem hne
    obtain ⟨j, c, hj, hcall, hok, -⟩ := run_issued
      (fun (s : State) (x : Address × ℕ) => x.1 ∈ s.tokens ∧ s.tokenWeights x.1 = x.2)
      (fun (c : Env × Call) x => c.2 = .addToken x.1 x.2) (fun _ _ => False) (s := deploy env₀ erc20 shady)
      (x := (token, s.tokenWeights token)) (fun h0 => hne (by simpa [deploy] using h0.1))
      (fun s c s' h hp => by
        rcases (exec_governs h).token hp.1 with ⟨hcall, -⟩ | ⟨hold, hweight⟩
        · exact .inl (hp.2 ▸ hcall)
        · exact .inr ⟨⟨hold, hweight.symm.trans hp.2⟩, not_false⟩) calls ⟨hmem, rfl⟩
    obtain ⟨env, call⟩ := c
    obtain rfl : call = .addToken token (s.tokenWeights token) := hcall
    obtain ⟨hgovernance, hdue, -⟩ := exec_governs hok.choose_spec
    exact ⟨j, _, ⟨hj, hok⟩, rfl, hgovernance, due_announced rfl hdue⟩

/-- account 3 -/
theorem governed_whitelisting :
    ∃ j c, Made exampleConfig exampleDeploy whitelisting j c ∧ c.2 = .whitelistTransferFor 3 ∧
      c.1.sender = c.1.governance ∧
      Announced exampleConfig exampleDeploy (whitelisting.take j) .WHITELIST_TRANSFER c.1.timestamp :=
  (governed exampleConfig (exampleEnv (100 * WEEK)) exampleTokens 7 whitelisting).1 3 (by decide +kernel)

end SimContracts.Ve
