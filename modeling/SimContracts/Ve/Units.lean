/-
Locks cannot be shortened or bypassed. Every unit of principal carries the unlock time under which it was deposited,
through any merges and splits: `Units` says which unlock times the units of each NFT and token carry, and `Carries` what
a call does to them. Units are alike, so which of them a split moves is left open, and every choice is covered.

A unit's unlock time is at most the end of the lock it lies in, or over: a lock that is not over never ends earlier
while it has anything, and units move only to locks that end no earlier.

Results:
  traced_exists   every history can be followed unit by unit
  locks_hold      what no call does to a lock that is not over, and that no unit is withdrawn before its unlock time
-/
import SimContracts.Ve.Locks

namespace SimContracts.Ve

open Solidity

variable {cfg : Config} {s s' : State} {env : Env} {now : ℕ}

/-! ## The locks in order -/

/-- locks as the calls leave them by the time `now` -/
structure Orderly (cfg : Config) (now : ℕ) (s : State) : Prop where
  vault : Vault cfg s
  listed : ∀ id token, s.lockedAmounts id token ≠ 0 → token ∈ s.tokens
  valid : ∀ token, s.isValidToken token → token ∈ s.tokens
  aligned : ∀ id, s.lockedEnd id % WEEK = 0
  near : ∀ id, s.lockedEnd id ≤ now + MAX_TIME

theorem Orderly.mono {later : ℕ} (ho : Orderly cfg now s) (h : now ≤ later) : Orderly cfg later s :=
  ⟨ho.vault, ho.listed, ho.valid, ho.aligned, fun id => (ho.near id).trans (Nat.add_le_add_right h _)⟩

theorem deploy_orderly (env : Env) {erc20 : Address → ERC20} (shady : Address)
    (h : ∀ token spender, (erc20 token).allowance cfg.self spender = 0) :
    Orderly cfg now (deploy env erc20 shady) := by
  refine ⟨deploy_vault env shady h, fun _ _ h => absurd rfl h, fun token ht => ?_, fun _ => rfl, fun _ => Nat.zero_le _⟩
  show token ∈ [shady]
  by_contra hne
  have hne : token ≠ shady := fun e => hne (by simp [e])
  simp [deploy, Function.update_of_ne hne] at ht

/-- the end of a merged lock -/
theorem Flow.end_le {src dst : ℕ} {s₁ : State} (h : Flow s s₁ src dst (max (s.lockedEnd src) (s.lockedEnd dst))) :
    s.lockedEnd dst ≤ s₁.lockedEnd dst ∧ s₁.lockedEnd dst ≤ max (s.lockedEnd src) (s.lockedEnd dst) := by
  rcases h.dstEnd with hend | ⟨hend, -⟩
  · rw [hend]
    exact ⟨le_max_right _ _, le_rfl⟩
  · rw [hend]
    exact ⟨le_rfl, le_max_right _ _⟩

/-- the source of a merge is emptied: of the tokens in the list by the loop, of the others it had nothing -/
theorem Flow.src_empty {src dst lockEnd : ℕ} {s₁ : State} (h : Flow s s₁ src dst lockEnd)
    (hlisted : ∀ id token, s.lockedAmounts id token ≠ 0 → token ∈ s.tokens)
    (hzero : ∀ token ∈ s.tokens, s₁.lockedAmounts src token = 0) (token : Address) : s₁.lockedAmounts src token = 0 := by
  by_cases ht : token ∈ s.tokens
  · exact hzero token ht
  · have h0 : s.lockedAmounts src token = 0 := by
      by_contra h0
      exact ht (hlisted src token h0)
    exact Nat.le_zero.1 ((h.src_le token).trans_eq h0)

/-- where an end that a call writes comes from -/
theorem Effect.ends {call : Call} (h : Effect env s s' call) (id : ℕ) :
    s'.lockedEnd id = 0 ∨ (∃ i, s'.lockedEnd id = s.lockedEnd i) ∨ UnlockTime env.timestamp (s'.lockedEnd id) := by
  have hupdate : ∀ {m : ℕ → ℕ} {i unlock : ℕ}, UnlockTime env.timestamp unlock → m = s.lockedEnd →
      s'.lockedEnd = Function.update m i unlock →
      s'.lockedEnd id = 0 ∨ (∃ i, s'.lockedEnd id = s.lockedEnd i) ∨ UnlockTime env.timestamp (s'.lockedEnd id) := by
    rintro m i unlock hu rfl hends
    by_cases hi : id = i
    · subst hi
      rw [hends, Function.update_self]
      exact .inr (.inr hu)
    · rw [hends, Function.update_of_ne hi]
      exact .inr (.inl ⟨id, rfl⟩)
  have hmax : ∀ a b : ℕ, ∃ i, max (s.lockedEnd a) (s.lockedEnd b) = s.lockedEnd i := by
    intro a b
    rcases max_choice (s.lockedEnd a) (s.lockedEnd b) with h | h
    · exact ⟨a, h⟩
    · exact ⟨b, h⟩
  have hflow : ∀ {s₁ : State} {src dst lockEnd : ℕ}, Flow s s₁ src dst lockEnd → (∃ i, lockEnd = s.lockedEnd i) →
      ∃ i, s₁.lockedEnd id = s.lockedEnd i := by
    rintro s₁ src dst lockEnd hf ⟨i, rfl⟩
    by_cases hd : id = dst
    · subst hd
      rcases hf.dstEnd with hend | ⟨hend, -⟩
      · exact ⟨i, hend⟩
      · exact ⟨id, hend⟩
    · exact ⟨id, hf.ends id hd⟩
  have hpaid : ∀ {i}, PaidOut env.timestamp s s' i →
      s'.lockedEnd id = 0 ∨ (∃ i, s'.lockedEnd id = s.lockedEnd i) ∨ UnlockTime env.timestamp (s'.lockedEnd id) := by
    intro i hp
    by_cases hi : id = i
    · subst hi
      rcases hp.idEnd with heq | h0
      · exact .inr (.inl ⟨id, heq⟩)
      · exact .inl h0
    · exact .inr (.inl ⟨id, hp.ends id hi⟩)
  cases call with
  | createLockFor token value d dst received =>
    obtain ⟨-, -, -, unlock, hu, hends⟩ := h
    exact hupdate hu rfl hends
  | createLock token value d received =>
    obtain ⟨-, -, -, unlock, hu, hends⟩ := h
    exact hupdate hu rfl hends
  | increaseUnlockTime i d =>
    obtain ⟨-, unlock, hu, -, hends⟩ := h
    exact hupdate hu rfl hends
  | merge src dst =>
    obtain ⟨-, -, -, s₁, hf, -, -, hends⟩ := h
    by_cases hi : id = src
    · subst hi
      rw [hends, Function.update_self]
      exact .inl rfl
    · rw [hends, Function.update_of_ne hi]
      exact .inr (.inl (hflow hf (hmax src dst)))
  | split i percent received =>
    obtain ⟨-, -, hf⟩ := h
    exact .inr (.inl (hflow hf ⟨i, rfl⟩))
  | withdraw token i => exact hpaid h.2
  | withdrawAll i => exact hpaid h.2
  | increaseAmount token i value => exact .inr (.inl ⟨id, congrFun h.2.2 id⟩)
  | _ => exact .inr (.inl ⟨id, congrFun h.2 id⟩)

/-- an amount a call leaves was there before, at some NFT, or is of a valid token -/
theorem Effect.listed {call : Call} (h : Effect env s s' call) {id : ℕ} {token : Address}
    (hne : s'.lockedAmounts id token ≠ 0) : s.isValidToken token ∨ ∃ i, s.lockedAmounts i token ≠ 0 := by
  have hwrite : ∀ {i t v}, s.isValidToken t → s'.lockedAmounts = update2 s.lockedAmounts i t v →
      s.isValidToken token ∨ ∃ i, s.lockedAmounts i token ≠ 0 := by
    intro i t v hv hamounts
    by_cases ht : token = t
    · exact .inl (ht ▸ hv)
    · refine .inr ⟨id, ?_⟩
      rw [hamounts, update2] at hne
      by_cases hi : id = i
      · subst hi
        rwa [Function.update_self, Function.update_of_ne ht] at hne
      · rwa [Function.update_of_ne hi] at hne
  have hflow : ∀ {s₁ : State} {src dst lockEnd : ℕ}, Flow s s₁ src dst lockEnd → s₁.lockedAmounts id token ≠ 0 →
      ∃ i, s.lockedAmounts i token ≠ 0 := by
    intro s₁ src dst lockEnd hf hne
    by_contra hnone
    push Not at hnone
    have hsum := hf.sum token
    rw [hnone src, hnone dst] at hsum
    by_cases hs : id = src
    · subst hs
      omega
    · by_cases hd : id = dst
      · subst hd
        omega
      · rw [hf.others id hs hd] at hne
        exact hne (hnone id)
  have hpaid : ∀ {i}, PaidOut env.timestamp s s' i → ∃ i, s.lockedAmounts i token ≠ 0 := by
    intro i hp
    refine ⟨id, ?_⟩
    by_cases hi : id = i
    · subst hi
      rcases hp.amounts token with heq | h0
      · rwa [← heq]
      · exact absurd h0 hne
    · rwa [← hp.others id hi]
  cases call with
  | createLockFor t value d dst received => exact hwrite h.1 h.2.2.1
  | createLock t value d received => exact hwrite h.1 h.2.2.1
  | increaseAmount t i value => exact hwrite h.1 h.2.1
  | increaseUnlockTime i d => exact .inr ⟨id, by rwa [← h.1]⟩
  | merge src dst =>
    obtain ⟨-, -, -, s₁, hf, -, hamounts, -⟩ := h
    exact .inr (hflow hf (by rwa [← hamounts]))
  | split i percent received => exact .inr (hflow h.2.2 hne)
  | withdraw t i => exact .inr (hpaid h.2)
  | withdrawAll i => exact .inr (hpaid h.2)
  | _ => exact .inr ⟨id, by rwa [← h.1]⟩

theorem Orderly.step {call : Call} (ho : Orderly cfg now s) (hnow : now ≤ env.timestamp)
    (h : exec cfg s env call = .ok s') : Orderly cfg env.timestamp s' := by
  obtain ⟨hlists, heffect⟩ := exec_effect ho.vault h
  have hvalid : ∀ token, s.isValidToken token → token ∈ s'.tokens := fun token ht => hlists.listed _ (ho.valid token ht)
  refine ⟨(exec_surplus h ho.vault).vault, fun id token hne => ?_, fun token ht => ?_, fun id => ?_, fun id => ?_⟩
  · rcases heffect.listed hne with hv | ⟨i, hi⟩
    · exact hvalid token hv
    · exact hlists.listed _ (ho.listed i token hi)
  · exact (hlists.valid token ht).elim (hvalid token) id
  · rcases heffect.ends id with h0 | ⟨i, hi⟩ | hu
    · rw [h0]
      rfl
    · rw [hi]
      exact ho.aligned i
    · exact hu.aligned
  · rcases heffect.ends id with h0 | ⟨i, hi⟩ | hu
    · rw [h0]
      exact Nat.zero_le _
    · rw [hi]
      exact (ho.near i).trans (Nat.add_le_add_right hnow _)
    · exact hu.near

/-! ## One call -/

/-- the calls that move principal from one NFT to another -/
def Call.moves : Call → Bool
  | .merge .. | .split .. => true
  | _ => false

/-- what a call does not do -/
structure LocksHold (cfg : Config) (env : Env) (s s' : State) (call : Call) : Prop where
  /-- a lock that is not over ends earlier only if nothing is left in it -/
  kept : ∀ id, env.timestamp < s.lockedEnd id → s'.lockedEnd id < s.lockedEnd id → ∀ token, s'.lockedAmounts id token = 0
  /-- an NFT that gains in a merge or split ends no earlier than one that loses -/
  moved : call.moves → ∀ i j token, s.lockedAmounts i token < s'.lockedAmounts i token →
    s'.lockedAmounts j token < s.lockedAmounts j token → s.lockedEnd j ≤ s'.lockedEnd i
  aligned : ∀ id, s'.lockedEnd id % WEEK = 0
  near : ∀ id, s'.lockedEnd id ≤ env.timestamp + MAX_TIME
  /-- tokens leave only for an NFT whose lock is over, at most as many as it has -/
  paid : ∀ token, held cfg s' token < held cfg s token → ∃ id, (call = .withdraw token id ∨ call = .withdrawAll id) ∧
    s.lockedEnd id ≤ env.timestamp ∧ held cfg s token ≤ held cfg s' token + s.lockedAmounts id token

theorem Flow.moved {s₁ : State} {src dst lockEnd i j : ℕ} {token : Address} (h : Flow s s₁ src dst lockEnd)
    (hgain : s.lockedAmounts i token < s₁.lockedAmounts i token)
    (hloss : s₁.lockedAmounts j token < s.lockedAmounts j token) : i = dst ∧ j = src ∧ s₁.lockedEnd dst = lockEnd := by
  have hsrc := h.src_le token
  have hdst := h.le token
  have hi : i = dst := by
    by_contra hd
    by_cases hs : i = src
    · subst hs
      omega
    · rw [h.others i hs hd] at hgain
      omega
  have hj : j = src := by
    by_contra hs
    by_cases hd : j = dst
    · subst hd
      omega
    · rw [h.others j hs hd] at hloss
      omega
  subst hi
  refine ⟨rfl, hj, ?_⟩
  rcases h.dstEnd with hend | ⟨-, hsame⟩
  · exact hend
  · rw [hsame] at hgain
    omega

theorem Effect.moved {call : Call} (h : Effect env s s' call) (hmoves : call.moves) {i j : ℕ} {token : Address}
    (hgain : s.lockedAmounts i token < s'.lockedAmounts i token)
    (hloss : s'.lockedAmounts j token < s.lockedAmounts j token) : s.lockedEnd j ≤ s'.lockedEnd i := by
  cases call with
  | merge src dst =>
    obtain ⟨hne, -, -, s₁, hf, -, hamounts, hends⟩ := h
    rw [hamounts] at hgain hloss
    obtain ⟨rfl, rfl, hend⟩ := hf.moved hgain hloss
    rw [hends, Function.update_of_ne hne.symm, hend]
    exact le_max_left _ _
  | split id percent received =>
    obtain ⟨-, -, hf⟩ := h
    obtain ⟨rfl, rfl, hend⟩ := hf.moved hgain hloss
    exact hend.ge
  | _ => simp [Call.moves] at hmoves

theorem Orderly.kept {call : Call} (ho : Orderly cfg now s) (h : Effect env s s' call) {id : ℕ}
    (hlive : env.timestamp < s.lockedEnd id) (hlt : s'.lockedEnd id < s.lockedEnd id) (token : Address) :
    s'.lockedAmounts id token = 0 := by
  have hused := ho.vault.used_of_end hlive
  have hnew : ∀ {unlock : ℕ}, s'.lockedEnd = Function.update s.lockedEnd (s.tokenId + 1) unlock → False := by
    intro unlock hends
    rw [hends, Function.update_of_ne (by omega)] at hlt
    exact lt_irrefl _ hlt
  have hpaid : PaidOut env.timestamp s s' id → False := by
    intro hp
    rcases hp.past with rfl | hpast
    · exact lt_irrefl _ hlt
    · omega
  have hpaid : ∀ {i}, PaidOut env.timestamp s s' i → False := by
    intro i hp
    by_cases hi : id = i
    · exact hpaid (hi ▸ hp)
    · rw [hp.ends id hi] at hlt
      exact lt_irrefl _ hlt
  cases call with
  | createLockFor t value d dst received =>
    obtain ⟨-, -, -, unlock, -, hends⟩ := h
    exact (hnew hends).elim
  | createLock t value d received =>
    obtain ⟨-, -, -, unlock, -, hends⟩ := h
    exact (hnew hends).elim
  | increaseUnlockTime i d =>
    obtain ⟨-, unlock, -, hlater, hends⟩ := h
    by_cases hi : id = i
    · subst hi
      rw [hends, Function.update_self] at hlt
      omega
    · rw [hends, Function.update_of_ne hi] at hlt
      exact (lt_irrefl _ hlt).elim
  | merge src dst =>
    obtain ⟨hne, -, -, s₁, hf, hzero, hamounts, hends⟩ := h
    by_cases hs : id = src
    · subst hs
      rw [hamounts]
      exact hf.src_empty ho.listed hzero token
    · rw [hends, Function.update_of_ne hs] at hlt
      by_cases hd : id = dst
      · subst hd
        exact absurd hf.end_le.1 (not_le.2 hlt)
      · rw [hf.ends id hd] at hlt
        exact (lt_irrefl _ hlt).elim
  | split i percent received =>
    obtain ⟨-, -, hf⟩ := h
    rw [hf.ends id (by omega)] at hlt
    exact (lt_irrefl _ hlt).elim
  | withdraw t i => exact (hpaid h.2).elim
  | withdrawAll i => exact (hpaid h.2).elim
  | increaseAmount t i value =>
    rw [h.2.2] at hlt
    exact (lt_irrefl _ hlt).elim
  | _ =>
    rw [h.2] at hlt
    exact (lt_irrefl _ hlt).elim

theorem PaidOut.locked_le {id : ℕ} (h : PaidOut now s s' id) (token : Address) :
    locked s token ≤ locked s' token + s.lockedAmounts id token := by
  have hids : ids s' = ids s := by rw [ids, ids, h.tokenId]
  have hterm : ∀ i ∈ ids s, s.lockedAmounts i token ≤
      s'.lockedAmounts i token + if i = id then s.lockedAmounts id token else 0 := by
    intro i _
    by_cases hi : i = id
    · subst hi
      rw [if_pos rfl]
      omega
    · rw [if_neg hi, h.others i hi, Nat.add_zero]
  have hsum := Finset.sum_le_sum hterm
  rw [Finset.sum_add_distrib, Finset.sum_ite_eq'] at hsum
  rw [locked, locked, hids]
  refine hsum.trans (Nat.add_le_add_left ?_ _)
  split_ifs
  · exact le_rfl
  · exact Nat.zero_le _

/-- the calls that pay nothing out keep what is locked -/
theorem locked_le_of_not_withdraw {call : Call} (hv : Vault cfg s) (h : exec cfg s env call = .ok s')
    (hwithdraw : ∀ t id, call ≠ .withdraw t id) (hall : ∀ id, call ≠ .withdrawAll id) (token : Address) :
    locked s token ≤ locked s' token := by
  cases call with
  | createLockFor t value d dst received => exact ((exec_recorded h hv token).1).ge.trans' (Nat.le_add_right _ _)
  | createLock t value d received => exact ((exec_recorded h hv token).1).ge.trans' (Nat.le_add_right _ _)
  | increaseAmount t id value => exact ((exec_recorded h hv token).1).ge.trans' (Nat.le_add_right _ _)
  | merge src dst => exact (exec_recorded h hv token).1.ge
  | split id percent received => exact (exec_recorded h hv token).1.ge
  | increaseUnlockTime id d =>
    obtain ⟨⟨sa, power, date⟩, ha, h⟩ := bind_ok.1 h
    cases h
    exact ((increaseUnlockTime_conserves ha hv).locked token).ge
  | checkpoint =>
    have h : checkpointWith s env ⟨0, 0, 0, 0, 0⟩ = .ok s' := h
    obtain ⟨hlocks, htokenId⟩ := checkpointWith_locks h
    exact (locked_congr htokenId hlocks.amounts token).ge
  | withdraw t id => exact absurd rfl (hwithdraw t id)
  | withdrawAll id => exact absurd rfl (hall id)
  | _ =>
    have hframe := exec_frame rfl h
    exact (locked_congr hframe.history.tokenId hframe.locks.amounts token).ge

theorem exec_paid {call : Call} (hv : Vault cfg s) (h : exec cfg s env call = .ok s') {token : Address}
    (hlt : held cfg s' token < held cfg s token) :
    ∃ id, (call = .withdraw token id ∨ call = .withdrawAll id) ∧ s.lockedEnd id ≤ env.timestamp ∧
      held cfg s token ≤ held cfg s' token + s.lockedAmounts id token := by
  have hsurplus := (exec_surplus h hv).le token
  have hlocked : locked s' token < locked s token := by omega
  -- the payout is of a lock that is over, and at most its amount
  have hpaid : ∀ {id}, PaidOut env.timestamp s s' id → s.lockedEnd id ≤ env.timestamp ∧
      held cfg s token ≤ held cfg s' token + s.lockedAmounts id token := by
    intro id hp
    have hle := hp.locked_le token
    refine ⟨?_, by omega⟩
    rcases hp.past with rfl | hpast
    · exact absurd hlocked (lt_irrefl _)
    · exact hpast
  by_cases hwithdraw : ∃ t id, call = .withdraw t id
  · obtain ⟨t, id, rfl⟩ := hwithdraw
    obtain ⟨-, hamounts, hp⟩ := exec_effect hv h
    rcases eq_or_ne token t with rfl | ht
    · exact ⟨id, .inl rfl, hpaid hp⟩
    · -- the other tokens of the lock stay
      have hsame : locked s' token = locked s token := by
        rw [locked, locked, show ids s' = ids s by rw [ids, ids, hp.tokenId], hamounts]
        refine Finset.sum_congr rfl fun i _ => ?_
        by_cases hi : i = id
        · subst hi
          rw [update2_row, Function.update_of_ne ht]
        · rw [update2_of_ne hi]
      omega
  · by_cases hall : ∃ id, call = .withdrawAll id
    · obtain ⟨id, rfl⟩ := hall
      obtain ⟨-, -, hp⟩ := exec_effect hv h
      exact ⟨id, .inr rfl, hpaid hp⟩
    · have hle := locked_le_of_not_withdraw hv h (fun t id e => hwithdraw ⟨t, id, e⟩) (fun id e => hall ⟨id, e⟩) token
      omega

theorem Orderly.locksHold {call : Call} (ho : Orderly cfg now s) (hnow : now ≤ env.timestamp)
    (h : exec cfg s env call = .ok s') : LocksHold cfg env s s' call := by
  have heffect := (exec_effect ho.vault h).2
  have ho' := ho.step hnow h
  exact ⟨fun id => ho.kept heffect, fun hmoves i j token => heffect.moved hmoves, ho'.aligned, ho'.near,
    fun token => exec_paid ho.vault h⟩

/-! ## Units of principal -/

/-- for each NFT and token, the unlock times under which its units were deposited, one for each unit -/
abbrev Units := ℕ → Address → Multiset ℕ

/-- what a successful call that ends in `s'` does to the units -/
def Carries (s' : State) (u u' : Units) : Call → Prop
  | .createLockFor token value _ _ _ | .createLock token value _ _ =>
    u' = update2 u s'.tokenId token (u s'.tokenId token + Multiset.replicate value (s'.lockedEnd s'.tokenId))
  | .increaseAmount token id value =>
    u' = update2 u id token (u id token + Multiset.replicate value (s'.lockedEnd id))
  | .merge src dst => u' = Function.update (Function.update u dst fun token => u dst token + u src token) src fun _ => 0
  | .split id _ _ =>
    -- some of the units move, as many as the new NFT gets
    ∃ new : Address → Multiset ℕ, (∀ token, new token ≤ u id token ∧
      (new token).card = s'.lockedAmounts s'.tokenId token) ∧
      u' = Function.update (Function.update u s'.tokenId new) id fun token => u id token - new token
  | .withdraw token id => u' = update2 u id token 0
  | .withdrawAll id => u' = Function.update u id fun _ => 0
  | _ => u' = u

/-- the call pays out the units of the NFT and token -/
def Call.Withdraws : Call → ℕ → Address → Prop
  | .withdraw token id, id', token' => id = id' ∧ token = token'
  | .withdrawAll id, id', _ => id = id'
  | _, _, _ => False

/-- a history followed unit by unit -/
inductive Traced (cfg : Config) (s₀ : State) : List (Env × Call) → Units → Prop where
  | start : Traced cfg s₀ [] fun _ _ => 0
  | reverted {calls : List (Env × Call)} {u : Units} {c : Env × Call} {e : Revert} : Traced cfg s₀ calls u →
    execIn cfg (run (execIn cfg) s₀ calls) c = .error e → Traced cfg s₀ (calls ++ [c]) u
  | step {calls : List (Env × Call)} {u u' : Units} {c : Env × Call} {s' : State} : Traced cfg s₀ calls u →
    execIn cfg (run (execIn cfg) s₀ calls) c = .ok s' → Carries s' u u' c.2 →
    Traced cfg s₀ (calls ++ [c]) u'

/-- as many units as are locked, none under an unlock time later than the end of the lock they lie in and than `now` -/
structure Covered (now : ℕ) (s : State) (u : Units) : Prop where
  card : ∀ id token, (u id token).card = s.lockedAmounts id token
  bound : ∀ id token, ∀ unlock ∈ u id token, unlock ≤ max (s.lockedEnd id) now

theorem Covered.mono {u : Units} {later : ℕ} (hc : Covered now s u) (h : now ≤ later) : Covered later s u :=
  ⟨hc.card, fun id token unlock hu => (hc.bound id token unlock hu).trans (max_le_max_left _ h)⟩

/-- each unit stays with a lock that ends no earlier, or is put under the end of its lock -/
theorem Covered.of_origin {u u' : Units} (hc : Covered now s u) (hnow : now ≤ env.timestamp)
    (hcard : ∀ id token, (u' id token).card = s'.lockedAmounts id token)
    (horigin : ∀ id token, ∀ unlock ∈ u' id token, unlock = s'.lockedEnd id ∨
      ∃ j, unlock ∈ u j token ∧ s.lockedEnd j ≤ max (s'.lockedEnd id) env.timestamp) : Covered env.timestamp s' u' := by
  refine ⟨hcard, fun id token unlock hu => ?_⟩
  rcases horigin id token unlock hu with rfl | ⟨j, hj, hend⟩
  · exact le_max_left _ _
  · have hbound := hc.bound j token unlock hj
    omega

theorem Covered.eq_zero {u : Units} (hc : Covered now s u) {id : ℕ} {token : Address}
    (h : s.lockedAmounts id token = 0) : u id token = 0 :=
  Multiset.card_eq_zero.1 ((hc.card id token).trans h)

/-- a deposit under the end of the lock -/
theorem Covered.deposit {u : Units} {id value : ℕ} {token : Address} (hc : Covered now s u)
    (hnow : now ≤ env.timestamp)
    (hamounts : s'.lockedAmounts = update2 s.lockedAmounts id token (s.lockedAmounts id token + value))
    (hends : ∀ i, s.lockedEnd i ≤ s'.lockedEnd i) :
    Covered env.timestamp s' (update2 u id token (u id token + Multiset.replicate value (s'.lockedEnd id))) := by
  have hstay : ∀ i t, ∀ unlock ∈ u i t, unlock = s'.lockedEnd i ∨
      ∃ j, unlock ∈ u j t ∧ s.lockedEnd j ≤ max (s'.lockedEnd i) env.timestamp :=
    fun i t unlock hu => .inr ⟨i, hu, (hends i).trans (le_max_left _ _)⟩
  refine hc.of_origin hnow (fun i t => ?_) fun i t unlock hu => ?_
  · rw [hamounts]
    by_cases hi : i = id
    · subst hi
      rw [update2_row, update2_row]
      by_cases ht : t = token
      · subst ht
        rw [Function.update_self, Function.update_self, Multiset.card_add, Multiset.card_replicate, hc.card]
      · rw [Function.update_of_ne ht, Function.update_of_ne ht]
        exact hc.card i t
    · rw [update2_of_ne hi, update2_of_ne hi]
      exact hc.card i t
  · by_cases hi : i = id
    · subst hi
      rw [update2_row] at hu
      by_cases ht : t = token
      · subst ht
        rw [Function.update_self] at hu
        rcases Multiset.mem_add.1 hu with hu | hu
        · exact hstay i t unlock hu
        · exact .inl (Multiset.eq_of_mem_replicate hu)
      · rw [Function.update_of_ne ht] at hu
        exact hstay i t unlock hu
    · rw [update2_of_ne hi] at hu
      exact hstay i t unlock hu

theorem Covered.create {u : Units} {value unlock : ℕ} {token : Address} (hc : Covered now s u)
    (hv : Vault cfg s) (hnow : now ≤ env.timestamp) (hid : s'.tokenId = s.tokenId + 1)
    (hamounts : s'.lockedAmounts = update2 s.lockedAmounts (s.tokenId + 1) token value)
    (hends : s'.lockedEnd = Function.update s.lockedEnd (s.tokenId + 1) unlock) :
    Covered env.timestamp s'
      (update2 u s'.tokenId token (u s'.tokenId token + Multiset.replicate value (s'.lockedEnd s'.tokenId))) := by
  rw [hid]
  refine hc.deposit hnow ?_ fun i => ?_
  · rw [hv.unused _ token (Nat.lt_succ_self _), Nat.zero_add]
    exact hamounts
  · by_cases hi : i = s.tokenId + 1
    · subst hi
      rw [(hv.unlocked _ (Nat.lt_succ_self _)).2]
      exact Nat.zero_le _
    · rw [hends, Function.update_of_ne hi]

theorem Covered.merge {u : Units} {src dst : ℕ} (hc : Covered now s u)
    (hlisted : ∀ id token, s.lockedAmounts id token ≠ 0 → token ∈ s.tokens) (hnow : now ≤ env.timestamp)
    (h : Effect env s s' (.merge src dst)) :
    Covered env.timestamp s'
      (Function.update (Function.update u dst fun token => u dst token + u src token) src fun _ => 0) := by
  obtain ⟨hne, -, -, s₁, hf, hzero, hamounts, hends⟩ := h
  have hempty := hf.src_empty hlisted hzero
  refine hc.of_origin hnow (fun i t => ?_) fun i t unlock hu => ?_
  · rw [hamounts]
    by_cases hs : i = src
    · subst hs
      rw [Function.update_self, hempty]
      rfl
    rw [Function.update_of_ne hs]
    by_cases hd : i = dst
    · subst hd
      have hsum := hf.sum t
      rw [hempty] at hsum
      rw [Function.update_self, Multiset.card_add, hc.card, hc.card]
      omega
    · rw [Function.update_of_ne hd, hc.card, hf.others i hs hd]
  · by_cases hs : i = src
    · subst hs
      rw [Function.update_self] at hu
      exact absurd hu (Multiset.notMem_zero _)
    rw [Function.update_of_ne hs] at hu
    rw [hends, Function.update_of_ne hs]
    by_cases hd : i = dst
    · subst hd
      rw [Function.update_self] at hu
      rcases Multiset.mem_add.1 hu with hu | hu
      · exact .inr ⟨i, hu, hf.end_le.1.trans (le_max_left _ _)⟩
      · refine .inr ⟨src, hu, ?_⟩
        rcases hf.dstEnd with hend | ⟨-, hsame⟩
        · rw [hend]
          exact (le_max_left _ _).trans (le_max_left _ _)
        · -- the end is not written: there was nothing to move
          have hsum := hf.sum t
          rw [hempty, hsame] at hsum
          rw [hc.eq_zero (by omega)] at hu
          exact absurd hu (Multiset.notMem_zero _)
    · rw [Function.update_of_ne hd] at hu
      exact .inr ⟨i, hu, (hf.ends i hd).ge.trans (le_max_left _ _)⟩

theorem Covered.split {u : Units} {id percent : ℕ} {received : Res Bool} {new : Address → Multiset ℕ}
    (hc : Covered now s u) (hv : Vault cfg s) (hnow : now ≤ env.timestamp)
    (h : Effect env s s' (.split id percent received))
    (hnew : ∀ token, new token ≤ u id token ∧ (new token).card = s'.lockedAmounts s'.tokenId token) :
    Covered env.timestamp s' (Function.update (Function.update u s'.tokenId new) id fun token => u id token - new token) := by
  obtain ⟨hid, hlive, hf⟩ := h
  have hne : id ≠ s.tokenId + 1 := fun e => absurd (hv.used_of_end hlive) (by omega)
  have hunused : ∀ token, s.lockedAmounts (s.tokenId + 1) token = 0 := fun token => hv.unused _ token (Nat.lt_succ_self _)
  rw [hid] at hnew ⊢
  refine hc.of_origin hnow (fun i t => ?_) fun i t unlock hu => ?_
  · by_cases hi : i = id
    · subst hi
      have hsum := hf.sum t
      rw [Function.update_self, Multiset.card_sub (hnew t).1, (hnew t).2, hc.card]
      rw [hunused] at hsum
      omega
    rw [Function.update_of_ne hi]
    by_cases hn : i = s.tokenId + 1
    · subst hn
      rw [Function.update_self]
      exact (hnew t).2
    · rw [Function.update_of_ne hn, hc.card, hf.others i hi hn]
  · by_cases hi : i = id
    · subst hi
      rw [Function.update_self] at hu
      exact .inr ⟨i, Multiset.mem_of_le (Multiset.sub_le_self _ _) hu, (hf.ends i hne).ge.trans (le_max_left _ _)⟩
    rw [Function.update_of_ne hi] at hu
    by_cases hn : i = s.tokenId + 1
    · subst hn
      rw [Function.update_self] at hu
      refine .inr ⟨id, Multiset.mem_of_le (hnew t).1 hu, ?_⟩
      rcases hf.dstEnd with hend | ⟨-, hsame⟩
      · rw [hend]
        exact le_max_left _ _
      · have hcard := (hnew t).2
        rw [hsame, hunused] at hcard
        rw [Multiset.card_eq_zero.1 hcard] at hu
        exact absurd hu (Multiset.notMem_zero _)
    · rw [Function.update_of_ne hn] at hu
      exact .inr ⟨i, hu, (hf.ends i hn).ge.trans (le_max_left _ _)⟩

/-- a payout may clear the end of the lock: it is over -/
theorem PaidOut.end_le {id : ℕ} (h : PaidOut now s s' id) (i : ℕ) : s.lockedEnd i ≤ max (s'.lockedEnd i) now := by
  by_cases hi : i = id
  · subst hi
    rcases h.past with rfl | hpast
    · exact le_max_left _ _
    · exact hpast.trans (le_max_right _ _)
  · rw [h.ends i hi]
    exact le_max_left _ _

theorem Covered.withdraw {u : Units} {id : ℕ} {token : Address} (hc : Covered now s u) (hnow : now ≤ env.timestamp)
    (h : Effect env s s' (.withdraw token id)) : Covered env.timestamp s' (update2 u id token 0) := by
  obtain ⟨hamounts, hp⟩ := h
  refine hc.of_origin hnow (fun i t => ?_) fun i t unlock hu => .inr ⟨i, ?_, hp.end_le i⟩
  · rw [hamounts]
    by_cases hi : i = id
    · subst hi
      rw [update2_row, update2_row]
      by_cases ht : t = token
      · subst ht
        rw [Function.update_self, Function.update_self]
        rfl
      · rw [Function.update_of_ne ht, Function.update_of_ne ht]
        exact hc.card i t
    · rw [update2_of_ne hi, update2_of_ne hi]
      exact hc.card i t
  · by_cases hi : i = id
    · subst hi
      rw [update2_row] at hu
      by_cases ht : t = token
      · subst ht
        rw [Function.update_self] at hu
        exact absurd hu (Multiset.notMem_zero _)
      · rwa [Function.update_of_ne ht] at hu
    · rwa [update2_of_ne hi] at hu

theorem Covered.withdrawAll {u : Units} {id : ℕ} (hc : Covered now s u)
    (hlisted : ∀ id token, s.lockedAmounts id token ≠ 0 → token ∈ s.tokens) (hnow : now ≤ env.timestamp)
    (h : Effect env s s' (.withdrawAll id)) : Covered env.timestamp s' (Function.update u id fun _ => 0) := by
  obtain ⟨hzero, hp⟩ := h
  refine hc.of_origin hnow (fun i t => ?_) fun i t unlock hu => .inr ⟨i, ?_, hp.end_le i⟩
  · by_cases hi : i = id
    · subst hi
      rw [Function.update_self]
      by_cases ht : t ∈ s.tokens
      · exact (hzero t ht).symm
      · rcases hp.amounts t with heq | h0
        · rw [heq]
          by_contra h0
          exact ht (hlisted i t fun e => h0 e.symm)
        · exact h0.symm
    · rw [Function.update_of_ne hi, hc.card, hp.others i hi]
  · by_cases hi : i = id
    · subst hi
      rw [Function.update_self] at hu
      exact absurd hu (Multiset.notMem_zero _)
    · rwa [Function.update_of_ne hi] at hu

theorem Covered.same {u : Units} (hc : Covered now s u) (hnow : now ≤ env.timestamp)
    (hamounts : s'.lockedAmounts = s.lockedAmounts) (hends : ∀ i, s.lockedEnd i ≤ s'.lockedEnd i) :
    Covered env.timestamp s' u :=
  hc.of_origin hnow (fun id token => by rw [hc.card, hamounts])
    fun id _ _ hu => .inr ⟨id, hu, (hends id).trans (le_max_left _ _)⟩

theorem Covered.step {u u' : Units} {call : Call} (hc : Covered now s u) (ho : Orderly cfg now s)
    (hnow : now ≤ env.timestamp) (h : exec cfg s env call = .ok s') (hcarries : Carries s' u u' call) :
    Covered env.timestamp s' u' := by
  have heffect := (exec_effect ho.vault h).2
  cases call with
  | createLockFor token value d dst received =>
    obtain ⟨-, hid, hamounts, unlock, -, hends⟩ := heffect
    cases hcarries
    exact hc.create ho.vault hnow hid hamounts hends
  | createLock token value d received =>
    obtain ⟨-, hid, hamounts, unlock, -, hends⟩ := heffect
    cases hcarries
    exact hc.create ho.vault hnow hid hamounts hends
  | increaseAmount token id value =>
    obtain ⟨-, hamounts, hends⟩ := heffect
    cases hcarries
    exact hc.deposit hnow hamounts fun i => (congrFun hends i).ge
  | increaseUnlockTime id d =>
    obtain ⟨hamounts, unlock, -, hlater, hends⟩ := heffect
    cases hcarries
    refine hc.same hnow hamounts fun i => ?_
    by_cases hi : i = id
    · subst hi
      rw [hends, Function.update_self]
      exact hlater.le
    · rw [hends, Function.update_of_ne hi]
  | merge src dst =>
    cases hcarries
    exact hc.merge ho.listed hnow heffect
  | split id percent received =>
    obtain ⟨new, hnew, rfl⟩ := hcarries
    exact hc.split ho.vault hnow heffect hnew
  | withdraw token id =>
    cases hcarries
    exact hc.withdraw hnow heffect
  | withdrawAll id =>
    cases hcarries
    exact hc.withdrawAll ho.listed hnow heffect
  | _ =>
    cases hcarries
    exact hc.same hnow heffect.1 fun i => (congrFun heffect.2 i).ge

/-! ## Runs -/

/-- a split finds the units it moves -/
theorem Covered.exists_carries {u : Units} {call : Call} (hc : Covered now s u) (ho : Orderly cfg now s)
    (h : exec cfg s env call = .ok s') : ∃ u', Carries s' u u' call := by
  cases call with
  | split id percent received =>
    obtain ⟨hid, -, hf⟩ := (exec_effect ho.vault h).2
    have hpick : ∀ token, ∃ new ≤ u id token, new.card = s'.lockedAmounts s'.tokenId token := by
      intro token
      have hsum := hf.sum token
      rw [ho.vault.unused _ token (Nat.lt_succ_self _), ← hid] at hsum
      have hle : s'.lockedAmounts s'.tokenId token ≤ (u id token).card := by
        rw [hc.card]
        omega
      have hpos : 0 < (Multiset.powersetCard (s'.lockedAmounts s'.tokenId token) (u id token)).card := by
        rw [Multiset.card_powersetCard]
        exact Nat.choose_pos hle
      obtain ⟨new, hnew⟩ := Multiset.card_pos_iff_exists_mem.1 hpos
      exact ⟨new, Multiset.mem_powersetCard.1 hnew⟩
    choose new hnew using hpick
    exact ⟨_, new, hnew, rfl⟩
  | _ => exact ⟨_, rfl⟩

/-- calls in the order of time, none later than `now` -/
structure InOrder (now : ℕ) (calls : List (Env × Call)) : Prop where
  ordered : calls.Pairwise fun c c' => c.1.timestamp ≤ c'.1.timestamp
  past : ∀ c ∈ calls, c.1.timestamp ≤ now

theorem InOrder.snoc {calls : List (Env × Call)} {c : Env × Call} (h : InOrder now (calls ++ [c])) :
    InOrder c.1.timestamp calls ∧ c.1.timestamp ≤ now := by
  obtain ⟨hcalls, -, hlast⟩ := List.pairwise_append.1 h.ordered
  exact ⟨⟨hcalls, fun d hd => hlast d hd c (List.mem_singleton_self c)⟩, h.past c (by simp)⟩

variable {s₀ : State}

theorem Orderly.run (h₀ : Orderly cfg 0 s₀) {calls : List (Env × Call)} (ht : InOrder now calls) :
    Orderly cfg now (run (execIn cfg) s₀ calls) := by
  induction calls using List.reverseRecOn generalizing now with
  | nil => exact h₀.mono (Nat.zero_le _)
  | append_singleton calls c ih =>
    obtain ⟨hcalls, hc⟩ := ht.snoc
    have hprev := ih hcalls
    rw [run_snoc]
    cases h : execIn cfg (Solidity.run (execIn cfg) s₀ calls) c with
    | ok s' => exact (hprev.step le_rfl h).mono hc
    | error e => exact hprev.mono hc

theorem Traced.covered (h₀ : Orderly cfg 0 s₀) (hempty : ∀ id token, s₀.lockedAmounts id token = 0)
    {calls : List (Env × Call)} {u : Units} (h : Traced cfg s₀ calls u) (ht : InOrder now calls) :
    Covered now (run (execIn cfg) s₀ calls) u := by
  induction h generalizing now with
  | start => exact ⟨fun id token => (hempty id token).symm, fun _ _ _ hu => absurd hu (Multiset.notMem_zero _)⟩
  | reverted _ herr ih =>
    obtain ⟨hcalls, hc⟩ := ht.snoc
    rw [run_snoc, herr]
    exact (ih hcalls).mono hc
  | step _ hok hcarries ih =>
    obtain ⟨hcalls, hc⟩ := ht.snoc
    rw [run_snoc, hok]
    exact ((ih hcalls).step (h₀.run hcalls) le_rfl hok hcarries).mono hc

/-- every history can be followed unit by unit -/
theorem traced_exists (h₀ : Orderly cfg 0 s₀) (hempty : ∀ id token, s₀.lockedAmounts id token = 0)
    {calls : List (Env × Call)} (ht : InOrder now calls) : ∃ u, Traced cfg s₀ calls u := by
  induction calls using List.reverseRecOn generalizing now with
  | nil => exact ⟨_, .start⟩
  | append_singleton calls c ih =>
    obtain ⟨hcalls, -⟩ := ht.snoc
    obtain ⟨u, hu⟩ := ih hcalls
    cases h : execIn cfg (Solidity.run (execIn cfg) s₀ calls) c with
    | ok s' =>
      obtain ⟨u', hu'⟩ := (hu.covered h₀ hempty hcalls).exists_carries (h₀.run hcalls) h
      exact ⟨u', .step hu h hu'⟩
    | error e => exact ⟨u, .reverted hu h⟩

/-- the units a call pays out, if any, are of a lock that is over -/
theorem Orderly.withdraws {call : Call} (ho : Orderly cfg now s) (h : Effect env s s' call) {id : ℕ} {token : Address}
    (hw : call.Withdraws id token) : s.lockedAmounts id token = 0 ∨ s.lockedEnd id ≤ env.timestamp := by
  cases call with
  | withdraw t i =>
    obtain ⟨rfl, rfl⟩ := hw
    obtain ⟨hamounts, hp⟩ := h
    refine hp.past.imp_left ?_
    rintro rfl
    rw [hamounts, update2_row, Function.update_self]
  | withdrawAll i =>
    cases hw
    obtain ⟨hzero, hp⟩ := h
    refine hp.past.imp_left ?_
    rintro rfl
    by_contra hne
    exact hne (hzero token (ho.listed _ token hne))
  | _ => exact hw.elim

/-- **Locks hold.** After any calls, in the order of time, and in any further call: what `LocksHold` says of the locks,
and, however the units of principal are followed through the history, the units of an NFT and token are as many as are
locked, and those that the call pays out were deposited under an unlock time that is not in the future. -/
theorem locks_hold (cfg : Config) (env₀ : Env) (erc20 : Address → ERC20) (shady : Address) (calls : List (Env × Call))
    (hfresh : ∀ token spender, (erc20 token).allowance cfg.self spender = 0) {env : Env} {call : Call} {s' : State}
    (htime : (calls ++ [(env, call)]).Pairwise fun c c' => c.1.timestamp ≤ c'.1.timestamp)
    (h : exec cfg (run (execIn cfg) (deploy env₀ erc20 shady) calls) env call = .ok s') :
    let s := run (execIn cfg) (deploy env₀ erc20 shady) calls
    LocksHold cfg env s s' call ∧ (∃ u, Traced cfg (deploy env₀ erc20 shady) calls u) ∧
      ∀ u, Traced cfg (deploy env₀ erc20 shady) calls u → (∀ id token, (u id token).card = s.lockedAmounts id token) ∧
        ∀ id token, call.Withdraws id token → ∀ unlock ∈ u id token, unlock ≤ env.timestamp := by
  intro s
  have h₀ : Orderly cfg 0 (deploy env₀ erc20 shady) := deploy_orderly env₀ shady hfresh
  have hempty : ∀ id token, (deploy env₀ erc20 shady).lockedAmounts id token = 0 := fun _ _ => rfl
  obtain ⟨hcalls, -, hlast⟩ := List.pairwise_append.1 htime
  have ht : InOrder env.timestamp calls := ⟨hcalls, fun c hc => hlast c hc _ (List.mem_singleton_self _)⟩
  have ho := h₀.run ht
  refine ⟨ho.locksHold le_rfl h, traced_exists h₀ hempty ht, fun u hu => ?_⟩
  have hc := hu.covered h₀ hempty ht
  refine ⟨hc.card, fun id token hw unlock hunlock => ?_⟩
  rcases ho.withdraws (exec_effect ho.vault h).2 hw with h0 | hpast
  · rw [hc.eq_zero h0] at hunlock
    exact absurd hunlock (Multiset.notMem_zero _)
  · exact (hc.bound id token unlock hunlock).trans (max_le hpast le_rfl)

/-- one lock of SHADY by account 1, withdrawn when it is over: all of it was deposited until then -/
theorem locks_hold_oneLock :
    ∃ s', exec exampleConfig (run (execIn exampleConfig) exampleDeploy [oneLock]) (exampleEnv (104 * WEEK))
        (.withdraw 7 1) = .ok s' ∧
      LocksHold exampleConfig (exampleEnv (104 * WEEK)) (run (execIn exampleConfig) exampleDeploy [oneLock]) s'
        (.withdraw 7 1) ∧
      ∃ u, Traced exampleConfig exampleDeploy [oneLock] u ∧ (u 1 7).card = 10 ^ 24 ∧
        ∀ unlock ∈ u 1 7, unlock ≤ 104 * WEEK := by
  have hok : (exec exampleConfig (run (execIn exampleConfig) exampleDeploy [oneLock]) (exampleEnv (104 * WEEK))
      (.withdraw 7 1)).failure = none := by decide +kernel
  obtain ⟨s', h⟩ := Res.failure_none hok
  obtain ⟨hhold, ⟨u, hu⟩, hunits⟩ := locks_hold exampleConfig (exampleEnv (100 * WEEK)) exampleTokens 7 [oneLock] exampleTokens_fresh
    (by simp [oneLock, exampleEnv, WEEK]) h
  obtain ⟨hcard, hpast⟩ := hunits u hu
  have hlocked : (run (execIn exampleConfig) exampleDeploy [oneLock]).lockedAmounts 1 7 = 10 ^ 24 := by decide +kernel
  exact ⟨s', h, hhold, u, hu, (hcard 1 7).trans hlocked, hpast 1 7 ⟨rfl, rfl⟩⟩

end SimContracts.Ve
