/-
Derived amounts. The derived amount of an NFT stands for the contributions of its locked amounts: each amount in units of
18 decimals, times the weight of its token, rounded down twice. It is not computed from the amounts but kept up to date:
a change of one amount takes off what the old amount gave, rounded up twice, and adds what the new one gives. So it is
never more than the contributions, and the voting power of an NFT is never more than its derived amount.

Results:
  calculateDerivedAmount_eq    the change, as truncated subtraction and addition
  exec_derives                 every call keeps derived amounts within the contributions, and last points on their lines
  derived_power                both bounds after every run
-/
import SimContracts.Ve.Clock

namespace SimContracts.Ve

open Solidity

variable {cfg : Config} {s s' s₁ s₂ : State} {env : Env}

/-! ## Contributions -/

/-- quotient rounded up, as `mulDivUp` computes it -/
def divUp (n d : ℕ) : ℕ := if n = 0 then 0 else (n - 1) / d + 1

theorem div_le_divUp (n d : ℕ) : n / d ≤ divUp n d := by
  unfold divUp
  split_ifs with h0
  · rw [h0, Nat.zero_div]
  · rcases Nat.eq_zero_or_pos d with rfl | hd
    · rw [Nat.div_zero]
      exact Nat.zero_le _
    · have hstep : n / d ≤ (n - 1 + d) / d := Nat.div_le_div_right (by omega)
      rwa [Nat.add_div_right _ hd] at hstep

theorem divUp_mono {n m : ℕ} (h : n ≤ m) (d : ℕ) : divUp n d ≤ divUp m d := by
  unfold divUp
  split_ifs with hn hm
  · exact le_rfl
  · exact Nat.zero_le _
  · omega
  · exact Nat.succ_le_succ (Nat.div_le_div_right (by omega))

/-- what an amount gives, rounded down twice -/
def contribution (amount weight decimals : ℕ) : ℕ := amount * 10 ^ 18 / 10 ^ decimals * weight / WEIGHT_DENOMINATOR

/-- what an amount takes off, rounded up twice -/
def contributionUp (amount weight decimals : ℕ) : ℕ :=
  divUp (divUp (amount * 10 ^ 18) (10 ^ decimals) * weight) WEIGHT_DENOMINATOR

theorem contribution_le_up (amount weight decimals : ℕ) :
    contribution amount weight decimals ≤ contributionUp amount weight decimals :=
  calc amount * 10 ^ 18 / 10 ^ decimals * weight / WEIGHT_DENOMINATOR
      ≤ divUp (amount * 10 ^ 18 / 10 ^ decimals * weight) WEIGHT_DENOMINATOR := div_le_divUp _ _
    _ ≤ contributionUp amount weight decimals := divUp_mono (Nat.mul_le_mul_right _ (div_le_divUp _ _)) _

theorem contributionUp_zero (weight decimals : ℕ) : contributionUp 0 weight decimals = 0 := by
  simp [contributionUp, divUp]

theorem mulDivDown_ok {x y d r : ℕ} (h : mulDivDown x y d = .ok r) : r = x * y / d := by
  unfold mulDivDown at h
  split_ifs at h
  cases h
  rfl

theorem mulDivUp_ok {x y d r : ℕ} (h : mulDivUp x y d = .ok r) : r = divUp (x * y) d := by
  unfold mulDivUp at h
  split_ifs at h with h1 h2 <;> cases h
  · rw [divUp, if_pos h2]
  · rw [divUp, if_neg h2]

variable {current old new weight decimals derived : ℕ}

/-- **The change of a derived amount.** -/
theorem calculateDerivedAmount_eq (h : calculateDerivedAmount current old new weight decimals = .ok derived) :
    derived = old - contributionUp current weight decimals + contribution new weight decimals := by
  simp only [calculateDerivedAmount, fits_bind] at h
  obtain ⟨-, h⟩ := h
  obtain ⟨rest, hrest, h⟩ := bind_ok.1 h
  obtain ⟨units, hunits, h⟩ := bind_ok.1 h
  obtain ⟨added, hadded, h⟩ := bind_ok.1 h
  obtain ⟨-, rfl⟩ := uadd_ok.1 h
  rw [mulDivDown_ok hadded, mulDivDown_ok hunits]
  congr 1
  unfold subtractDerived at hrest
  split_ifs at hrest with hboth
  · obtain ⟨unitsUp, h1, hrest⟩ := bind_ok.1 hrest
    obtain ⟨taken, h2, hrest⟩ := bind_ok.1 hrest
    obtain rfl : taken = contributionUp current weight decimals := by
      rw [mulDivUp_ok h2, mulDivUp_ok h1, contributionUp]
    rw [← pure_ok.1 hrest]
    split_ifs <;> omega
  · cases hrest
    rcases not_and_or.1 hboth with h0 | h0
    · rw [not_not.1 h0, Nat.zero_sub]
    · rw [not_not.1 h0, contributionUp_zero, Nat.sub_zero]

/-- the sum of the contributions of an NFT's locked amounts -/
def contributions (cfg : Config) (s : State) (id : ℕ) : ℕ :=
  ∑ t ∈ s.tokens.toFinset, contribution (s.lockedAmounts id t) (s.tokenWeights t) (cfg.decimals t)

/-- same tokens and weights -/
structure SameWeights (s s' : State) : Prop where
  tokens : s'.tokens = s.tokens
  weights : s'.tokenWeights = s.tokenWeights

theorem SameWeights.refl (s : State) : SameWeights s s := ⟨rfl, rfl⟩

theorem SameWeights.trans (h : SameWeights s s₁) (h' : SameWeights s₁ s₂) : SameWeights s s₂ :=
  ⟨h'.tokens.trans h.tokens, h'.weights.trans h.weights⟩

theorem SameWeights.contributions (h : SameWeights s s') {id : ℕ} (hamounts : s'.lockedAmounts id = s.lockedAmounts id) :
    contributions cfg s' id = contributions cfg s id := by
  rw [Ve.contributions, Ve.contributions, h.tokens, h.weights, hamounts]

/-- **One amount changes.** The derived amount computed for the change stays within the contributions. -/
theorem SameWeights.derived_le (h : SameWeights s s') {id amount : ℕ} {token : Address} (ht : token ∈ s.tokens)
    (hamounts : s'.lockedAmounts id = Function.update (s.lockedAmounts id) token amount)
    (hd : calculateDerivedAmount (s.lockedAmounts id token) old amount (s.tokenWeights token) (cfg.decimals token) =
      .ok derived) (hold : old ≤ Ve.contributions cfg s id) : derived ≤ Ve.contributions cfg s' id := by
  have hmem : token ∈ s.tokens.toFinset := List.mem_toFinset.2 ht
  have hrest : ∑ t ∈ s.tokens.toFinset.erase token,
        contribution (s'.lockedAmounts id t) (s'.tokenWeights t) (cfg.decimals t) =
      ∑ t ∈ s.tokens.toFinset.erase token, contribution (s.lockedAmounts id t) (s.tokenWeights t) (cfg.decimals t) := by
    refine Finset.sum_congr rfl fun t hne => ?_
    rw [hamounts, h.weights, Function.update_of_ne (Finset.ne_of_mem_erase hne)]
  have hle := contribution_le_up (s.lockedAmounts id token) (s.tokenWeights token) (cfg.decimals token)
  rw [Ve.contributions, ← Finset.add_sum_erase _ _ hmem] at hold
  rw [calculateDerivedAmount_eq hd, Ve.contributions, h.tokens, ← Finset.add_sum_erase _ _ hmem, hrest, hamounts, h.weights,
    Function.update_self]
  omega

/-- the tokens so far keep their weights -/
structure KeepsWeights (s s' : State) : Prop where
  tokens : ∀ t ∈ s.tokens, t ∈ s'.tokens
  weights : ∀ t ∈ s.tokens, s'.tokenWeights t = s.tokenWeights t

theorem SameWeights.keeps (h : SameWeights s s') : KeepsWeights s s' :=
  ⟨fun _ ht => h.tokens ▸ ht, fun _ _ => by rw [h.weights]⟩

theorem KeepsWeights.contributions_le (h : KeepsWeights s s') {id : ℕ}
    (hamounts : s'.lockedAmounts id = s.lockedAmounts id) : contributions cfg s id ≤ contributions cfg s' id := by
  have hsame : contributions cfg s id =
      ∑ t ∈ s.tokens.toFinset, contribution (s'.lockedAmounts id t) (s'.tokenWeights t) (cfg.decimals t) := by
    refine Finset.sum_congr rfl fun t ht => ?_
    rw [hamounts, h.weights t (List.mem_toFinset.1 ht)]
  rw [hsame]
  refine Finset.sum_le_sum_of_subset fun t ht => ?_
  exact List.mem_toFinset.2 (h.tokens t (List.mem_toFinset.1 ht))

theorem Reowned.weights (h : Reowned s s') : SameWeights s s' := by
  obtain ⟨_, _, _, _, _, _, rfl⟩ := h
  exact ⟨rfl, rfl⟩

theorem Relocked.weights (h : Relocked s s') : SameWeights s s' := by
  obtain ⟨_, _, _, _, _, _, _, _, _, rfl⟩ := h
  exact ⟨rfl, rfl⟩

/-! ## Lines -/

/-- the last point of an NFT is the line of its derived amount, up to an end in range -/
def Drawn (s : State) (i : ℕ) : Prop :=
  s.userPointEpoch i = 0 ∨ i ≠ 0 ∧ ∃ lockEnd, lockEnd ≤ (userPoint s i).ts + MAX_TIME ∧
    lockLine (userPoint s i).ts (s.lockedDerivedAmount i) lockEnd = .ok ((userPoint s i).slope, (userPoint s i).bias)

theorem Drawn.of_eq {i : ℕ} (h : Drawn s i) (h1 : s'.userPointEpoch i = s.userPointEpoch i)
    (h2 : userPoint s' i = userPoint s i) (h3 : s'.lockedDerivedAmount i = s.lockedDerivedAmount i) : Drawn s' i := by
  rw [Drawn, h1, h2, h3]
  exact h

theorem SamePoints.userPoint_eq (h : SamePoints s s') (i : ℕ) : userPoint s' i = userPoint s i := by
  rw [userPoint, userPoint, h.userPointEpoch, h.userPointHistory]

theorem Frame.drawn (h : Frame s s') {i : ℕ} (hs : Drawn s i) : Drawn s' i :=
  hs.of_eq (congrFun h.history.userPointEpoch i) (h.history.points.userPoint_eq i) (congrFun h.locks.derived i)

/-- **A derived amount is written and checkpointed.** -/
theorem relock_drawn {info : CheckpointInfo} (hsame : SamePoints s s₁)
    (hother : ∀ i, i ≠ info.tokenId → s₁.lockedDerivedAmount i = s.lockedDerivedAmount i)
    (hnew : s₁.lockedDerivedAmount info.tokenId = info.newDerivedAmount) (hend : info.newEnd ≤ env.timestamp + MAX_TIME)
    (hc : checkpointWith s₁ env info = .ok s₂) (hs : ∀ i, Drawn s i) (i : ℕ) : Drawn s₂ i := by
  have hderived := (checkpointWith_locks hc).1.derived
  unfold checkpointWith at hc
  split_ifs at hc with hid
  · obtain ⟨f, -, hc⟩ := bind_ok.1 hc
    cases hc
    by_cases hi : i = info.tokenId
    · -- id 0 is never an NFT
      left
      rw [hi, hid]
      show s₁.userPointEpoch 0 = 0
      rw [hsame.userPointEpoch]
      exact (hs 0).resolve_right fun h => h.1 rfl
    · exact (hs i).of_eq (congrFun hsame.userPointEpoch i) (hsame.userPoint_eq i) (hother i hi)
  · obtain ⟨-, uNew, hline, hepoch, hhist⟩ := checkpointLock_user hc
    by_cases hi : i = info.tokenId
    · subst hi
      have hpoint : userPoint s₂ info.tokenId =
          { slope := uNew.1, bias := uNew.2, ts := env.timestamp, blk := env.number } := by
        rw [userPoint, hepoch, hhist, update2_row, Function.update_self, Function.update_self]
      refine .inr ⟨hid, info.newEnd, ?_, ?_⟩
      · rw [hpoint]
        exact hend
      · rw [hpoint, hderived, hnew]
        exact hline
    · refine (hs i).of_eq ?_ ?_ ?_
      · rw [hepoch, Function.update_of_ne hi, hsame.userPointEpoch]
      · rw [userPoint, hepoch, hhist, update2_of_ne hi, Function.update_of_ne hi]
        exact hsame.userPoint_eq i
      · rw [hderived]
        exact hother i hi

/-! ## The operations on locks -/

/-- derived amounts within the contributions, of the NFTs in `J`, and last points on their lines -/
structure Derives (cfg : Config) (s : State) (J : ℕ → Prop) : Prop where
  within : ∀ i, J i → s.lockedDerivedAmount i ≤ contributions cfg s i
  drawn : ∀ i, Drawn s i

variable {J : ℕ → Prop}

theorem Frame.derives (h : Frame s s') (hw : KeepsWeights s s') (hs : Derives cfg s J) : Derives cfg s' J := by
  refine ⟨fun i hi => ?_, fun i => h.drawn (hs.drawn i)⟩
  rw [h.locks.derived]
  exact (hs.within i hi).trans (hw.contributions_le (congrFun h.locks.amounts i))

/-- the lock a deposit writes -/
theorem written_within {info : DepositInfo} (hv : info.value ≠ 0)
    (hd : calculateDerivedAmount info.lockedAmount info.lockedDerivedAmount (info.lockedAmount + info.value)
      (s.tokenWeights info.stakingToken) (cfg.decimals info.stakingToken) = .ok derived)
    (hderived : info.lockedDerivedAmount = s.lockedDerivedAmount info.tokenId) (hlisted : info.stakingToken ∈ s.tokens)
    (hcurrent : info.lockedAmount = s.lockedAmounts info.tokenId info.stakingToken) (hs : Derives cfg s J) {i : ℕ}
    (hi : J i) : (written s info derived).lockedDerivedAmount i ≤ contributions cfg (written s info derived) i := by
  have hweights : SameWeights s (written s info derived) := ⟨rfl, rfl⟩
  have hamounts : (written s info derived).lockedAmounts =
      update2 s.lockedAmounts info.tokenId info.stakingToken (info.lockedAmount + info.value) := if_pos hv
  have hupdate : (written s info derived).lockedDerivedAmount =
      Function.update s.lockedDerivedAmount info.tokenId derived := if_pos hv
  rw [hupdate]
  by_cases hid : i = info.tokenId
  · subst hid
    rw [Function.update_self]
    rw [hcurrent, hderived] at hd
    refine hweights.derived_le hlisted ?_ hd (hs.within _ hi)
    rw [hamounts, update2_row, hcurrent]
  · rw [Function.update_of_ne hid, hweights.contributions (by rw [hamounts, update2_of_ne hid])]
    exact hs.within i hi

theorem depositFor_derives {info : DepositInfo} (h : depositFor cfg s env info = .ok s')
    (hderived : info.lockedDerivedAmount = s.lockedDerivedAmount info.tokenId)
    (hamount : info.value ≠ 0 → info.stakingToken ∈ s.tokens ∧
      info.lockedAmount = s.lockedAmounts info.tokenId info.stakingToken)
    (hend : (if info.unlockTime ≠ 0 then info.unlockTime else info.lockedEnd) ≤ env.timestamp + MAX_TIME)
    (hs : Derives cfg s J) : SameWeights s s' ∧ Derives cfg s' J := by
  obtain ⟨derived, s₁, hsteps⟩ := depositFor_steps h
  have hframe := (depositTokens_rebalanced hsteps.pulled).frame
  have hpulled := (depositTokens_rebalanced hsteps.pulled).relocked.weights
  have hchecked := (checkpointWith_relocked hsteps.checked).weights
  have hlocks := (checkpointWith_locks hsteps.checked).1
  have hweights : SameWeights s (written s info derived) := ⟨rfl, rfl⟩
  -- with no value the lock stays as it is
  have hother : ∀ i, i ≠ info.tokenId → (written s info derived).lockedDerivedAmount i = s.lockedDerivedAmount i :=
    fun i hi => (written_others hi).2.1
  have hnew : (written s info derived).lockedDerivedAmount info.tokenId = derived := by
    by_cases hv : info.value ≠ 0
    · have hupdate : (written s info derived).lockedDerivedAmount =
          Function.update s.lockedDerivedAmount info.tokenId derived := if_pos hv
      rw [hupdate, Function.update_self]
    · have hsame : (written s info derived).lockedDerivedAmount = s.lockedDerivedAmount := if_neg hv
      rw [hsame, hsteps.unchanged (not_not.1 hv), hderived]
  have hwithin : ∀ i, J i →
      (written s info derived).lockedDerivedAmount i ≤ contributions cfg (written s info derived) i := by
    intro i hi
    by_cases hv : info.value ≠ 0
    · exact written_within hv (hsteps.computed hv) hderived (hamount hv).1 (hamount hv).2 hs hi
    · have hamounts : (written s info derived).lockedAmounts = s.lockedAmounts := if_neg hv
      have hsame : (written s info derived).lockedDerivedAmount = s.lockedDerivedAmount := if_neg hv
      rw [hweights.contributions (congrFun hamounts i), hsame]
      exact hs.within i hi
  have hpoints : SamePoints s (written s info derived) := ⟨rfl, rfl, rfl, rfl, rfl⟩
  have hdrawn : ∀ i, Drawn s₁ i := relock_drawn hpoints hother hnew hend hsteps.checked hs.drawn
  refine ⟨(hweights.trans hchecked).trans hpulled, hframe.derives hpulled.keeps ⟨fun i hi => ?_, hdrawn⟩⟩
  rw [hlocks.derived, hchecked.contributions (congrFun hlocks.amounts i)]
  exact hwithin i hi

/-- every NFT is consistent -/
abbrev DerivesAll (cfg : Config) (s : State) : Prop := Derives cfg s fun _ => True

theorem createLockFor_derives {token dst : Address} {value d id : ℕ} {received : Res Bool}
    (h : createLockFor cfg s env token value d dst received = .ok (s', id)) (hv : Vault cfg s)
    (hvalid : s.isValidToken token → token ∈ s.tokens) (hs : DerivesAll cfg s) :
    SameWeights s s' ∧ DerivesAll cfg s' := by
  obtain ⟨unlockTime, s₁, hc⟩ := createLockFor_ok h
  have hlater := hc.later
  have hreowned := mint_reowned hc.minted
  have hframe := hreowned.frame
  have hweights : SameWeights s s₁ := ⟨hreowned.weights.tokens, hreowned.weights.weights⟩
  have hs₁ : DerivesAll cfg s₁ := hframe.derives hreowned.weights.keeps ⟨hs.within, hs.drawn⟩
  -- the id is new
  have hderived : 0 = s₁.lockedDerivedAmount (s.tokenId + 1) := by
    rw [hframe.locks.derived]
    exact (hv.unlocked _ (Nat.lt_succ_self _)).1.symm
  have hamount : 0 = s₁.lockedAmounts (s.tokenId + 1) token := by
    rw [hframe.locks.amounts]
    exact (hv.unused _ _ (Nat.lt_succ_self _)).symm
  obtain ⟨hw, hs'⟩ := depositFor_derives hc.deposited hderived (fun _ => ⟨hweights.tokens.symm ▸ hvalid hc.valid, hamount⟩)
    (by rw [if_pos (by dsimp only; omega)]; exact hc.near) hs₁
  exact ⟨hweights.trans hw, hs'⟩

theorem increaseAmount_derives {token : Address} {id value : ℕ} (h : increaseAmount cfg s env token id value = .ok s')
    (hvalid : s.isValidToken token → token ∈ s.tokens) (hnear : s.lockedEnd id ≤ env.timestamp + MAX_TIME)
    (hs : DerivesAll cfg s) : SameWeights s s' ∧ DerivesAll cfg s' := by
  have hi := increaseAmount_ok h
  refine depositFor_derives hi.deposited rfl (fun _ => ⟨hvalid hi.valid, rfl⟩) ?_ hs
  rw [if_neg (by simp)]
  exact hnear

theorem increaseUnlockTime_derives {id d power date : ℕ}
    (h : increaseUnlockTime cfg s env id d = .ok (s', power, date)) (hs : DerivesAll cfg s) :
    SameWeights s s' ∧ DerivesAll cfg s' := by
  obtain ⟨unlockTime, hi⟩ := increaseUnlockTime_ok h
  have hlater := hi.later
  refine depositFor_derives hi.deposited rfl (fun h0 => absurd rfl h0) ?_ hs
  rw [if_pos (by dsimp only; omega)]
  exact hi.near

/-- the token loop of a merge: the derived amount of `src` is stale until the end -/
theorem mergeTokens_derives {src dst lockEnd : ℕ} (hpos : lockEnd ≠ 0)
    (hend : lockEnd ≤ env.timestamp + MAX_TIME) (tokens : List Address) {e : ℕ} (hlisted : ∀ t ∈ tokens, t ∈ s.tokens)
    (h : mergeTokens cfg env src dst lockEnd tokens s e = .ok s') (hs : Derives cfg s fun i => i ≠ src) :
    SameWeights s s' ∧ Derives cfg s' fun i => i ≠ src := by
  induction tokens generalizing s e with
  | nil =>
    cases h
    exact ⟨.refl _, hs⟩
  | cons token rest ih =>
    have hrest : ∀ t ∈ rest, t ∈ s.tokens := fun t ht => hlisted t (List.mem_cons_of_mem _ ht)
    rcases mergeTokens_cons h with ⟨-, h⟩ | ⟨sa, hround, h⟩
    · exact ih hrest h hs
    · have ha := hround.deposited
      have hweights : SameWeights s { s with lockedAmounts := update2 s.lockedAmounts src token 0 } := ⟨rfl, rfl⟩
      have hcleared : Derives cfg { s with lockedAmounts := update2 s.lockedAmounts src token 0 } fun i => i ≠ src := by
        refine ⟨fun i hi => ?_, hs.drawn⟩
        rw [hweights.contributions (update2_of_ne hi)]
        exact hs.within i hi
      obtain ⟨hwa, hsa⟩ := depositFor_derives ha rfl (fun _ => ⟨hlisted token List.mem_cons_self, rfl⟩)
        (by rw [if_pos hpos]; exact hend) hcleared
      have hwa' : SameWeights s sa := hweights.trans hwa
      obtain ⟨hw', hs'⟩ := ih (fun t ht => hwa'.tokens.symm ▸ hrest t ht) h hsa
      exact ⟨hwa'.trans hw', hs'⟩

/-- the derived amount of the one stale NFT is written and checkpointed -/
theorem Derives.settle {info : CheckpointInfo} (hs : Derives cfg s fun i => i ≠ info.tokenId) (hsame : SamePoints s s₁)
    (hweights : SameWeights s s₁) (hother : ∀ i, i ≠ info.tokenId →
      s₁.lockedDerivedAmount i = s.lockedDerivedAmount i ∧ s₁.lockedAmounts i = s.lockedAmounts i)
    (hnew : s₁.lockedDerivedAmount info.tokenId = info.newDerivedAmount)
    (hwithin : info.newDerivedAmount ≤ contributions cfg s₁ info.tokenId)
    (hend : info.newEnd ≤ env.timestamp + MAX_TIME) (hc : checkpointWith s₁ env info = .ok s₂) : DerivesAll cfg s₂ := by
  have hlocks := (checkpointWith_locks hc).1
  refine ⟨fun i _ => ?_, relock_drawn hsame (fun i hi => (hother i hi).1) hnew hend hc hs.drawn⟩
  rw [hlocks.derived, (checkpointWith_relocked hc).weights.contributions (congrFun hlocks.amounts i)]
  by_cases hi : i = info.tokenId
  · subst hi
    rw [hnew]
    exact hwithin
  · rw [(hother i hi).1, hweights.contributions (hother i hi).2]
    exact hs.within i hi

theorem merge_derives {src dst : ℕ} (h : merge cfg s env src dst = .ok s')
    (hnear : ∀ i, s.lockedEnd i ≤ env.timestamp + MAX_TIME) (hs : DerivesAll cfg s) :
    SameWeights s s' ∧ DerivesAll cfg s' := by
  obtain ⟨s₁, s₂, hm⟩ := merge_ok h
  have hlive := hm.src_live
  have hreowned := burn_reowned hm.burned
  obtain ⟨hw₁, hs₁⟩ := mergeTokens_derives (by omega) (max_le (hnear src) (hnear dst)) s.tokens (fun _ ht => ht)
    hm.moved ⟨fun i _ => hs.within i trivial, hs.drawn⟩
  have hw₂ := (checkpointWith_relocked hm.cleared).weights
  let sa : State := { s₁ with
    lockedDerivedAmount := Function.update s₁.lockedDerivedAmount src 0
    lockedEnd := Function.update s₁.lockedEnd src 0 }
  have hpoints : SamePoints s₁ sa := ⟨rfl, rfl, rfl, rfl, rfl⟩
  have hs₂ : DerivesAll cfg s₂ :=
    Derives.settle hs₁ hpoints ⟨rfl, rfl⟩ (fun i hi => ⟨Function.update_of_ne hi _ _, rfl⟩)
      (Function.update_self ..) (Nat.zero_le _) (hnear src) hm.cleared
  refine ⟨(hw₁.trans ⟨hw₂.tokens, hw₂.weights⟩).trans hreowned.weights, ?_⟩
  exact hreowned.frame.derives hreowned.weights.keeps hs₂

/-- the token loop of a split: the derived amount left to the NFT that is split is carried along -/
theorem splitTokens_derives {id newId percent lockEnd : ℕ} (hne : newId ≠ id) (hpos : lockEnd ≠ 0)
    (hend : lockEnd ≤ env.timestamp + MAX_TIME) (tokens : List Address) {d d' : ℕ} (hnodup : tokens.Nodup)
    (hlisted : ∀ t ∈ tokens, t ∈ s.tokens) (hfresh : ∀ t ∈ tokens, s.lockedAmounts newId t = 0)
    (h : splitTokens cfg env id newId percent lockEnd tokens s d = .ok (s', d'))
    (hs : Derives cfg s fun i => i ≠ id) (hd : d ≤ contributions cfg s id) :
    SameWeights s s' ∧ (Derives cfg s' fun i => i ≠ id) ∧ d' ≤ contributions cfg s' id := by
  induction tokens generalizing s d with
  | nil =>
    cases h
    exact ⟨.refl _, hs, hd⟩
  | cons token rest ih =>
    obtain ⟨hnotin, hnodup⟩ := List.nodup_cons.1 hnodup
    have hrest : ∀ t ∈ rest, t ∈ s.tokens := fun t ht => hlisted t (List.mem_cons_of_mem _ ht)
    rcases splitTokens_cons h with h | ⟨left, sa, hround, h⟩
    · exact ih hnodup hrest (fun t ht => hfresh t (List.mem_cons_of_mem _ ht)) h hs hd
    · have hleft := hround.computed
      have ha := hround.deposited
      generalize hremaining : s.lockedAmounts id token - s.lockedAmounts id token * percent / (100 * 10 ^ 18) = remaining
        at hleft ha
      have hweights : SameWeights s { s with lockedAmounts := update2 s.lockedAmounts id token remaining } := ⟨rfl, rfl⟩
      have htaken : Derives cfg { s with lockedAmounts := update2 s.lockedAmounts id token remaining } fun i => i ≠ id := by
        refine ⟨fun i hi => ?_, hs.drawn⟩
        rw [hweights.contributions (update2_of_ne hi)]
        exact hs.within i hi
      have hleft_le := hweights.derived_le (hlisted token List.mem_cons_self) update2_row hleft hd
      have hzero : update2 s.lockedAmounts id token remaining newId token = 0 := by
        rw [update2_of_ne hne]
        exact hfresh token List.mem_cons_self
      obtain ⟨hwa, hsa⟩ := depositFor_derives ha rfl (fun _ => ⟨hlisted token List.mem_cons_self, hzero.symm⟩)
        (by rw [if_pos hpos]; exact hend) htaken
      have hwa' : SameWeights s sa := hweights.trans hwa
      -- the deposit is for the new NFT and this token only
      have hwrites := depositFor_writes ha
      have hamounts : sa.lockedAmounts = update2 (update2 s.lockedAmounts id token remaining) newId token
          (0 + s.lockedAmounts id token * percent / (100 * 10 ^ 18)) := by
        rw [hwrites.amounts, if_pos hround.share_ne]
      have hleft_le' : left ≤ contributions cfg sa id := by
        rw [hwa.contributions (by rw [hamounts, update2_of_ne hne.symm])]
        exact hleft_le
      have hfresh' : ∀ t ∈ rest, sa.lockedAmounts newId t = 0 := by
        intro t ht
        have hne' : t ≠ token := fun e => hnotin (e ▸ ht)
        rw [hamounts, update2_row, Function.update_of_ne hne', update2_of_ne hne]
        exact hfresh t (List.mem_cons_of_mem _ ht)
      obtain ⟨hw', hs', hd'⟩ := ih hnodup (fun t ht => hwa'.tokens.symm ▸ hrest t ht) hfresh' h hsa hleft_le'
      exact ⟨hwa'.trans hw', hs', hd'⟩

theorem split_derives {id percent : ℕ} {received : Res Bool} (h : split cfg s env id percent received = .ok s')
    (hv : Vault cfg s) (hnear : ∀ i, s.lockedEnd i ≤ env.timestamp + MAX_TIME) (hs : DerivesAll cfg s) :
    SameWeights s s' ∧ DerivesAll cfg s' := by
  obtain ⟨s₁, s₂, d, hsp⟩ := split_ok h
  have hlive := hsp.live
  have hid := hv.used_of_end hlive
  have hreowned := mint_reowned hsp.minted
  have hframe := hreowned.frame
  have hw₁ : SameWeights s s₁ := ⟨hreowned.weights.tokens, hreowned.weights.weights⟩
  have hs₁ : DerivesAll cfg s₁ := hframe.derives hreowned.weights.keeps ⟨hs.within, hs.drawn⟩
  have hderived : s₁.lockedDerivedAmount id = s.lockedDerivedAmount id := congrFun hframe.locks.derived id
  obtain ⟨hw₂, hs₂, hd⟩ := splitTokens_derives (by omega) (by omega) (hnear id) s₁.tokens (hw₁.tokens ▸ hv.nodup)
    (fun _ ht => ht) (fun t _ => (congrFun (congrFun hframe.locks.amounts _) t).trans (hv.unused _ t (Nat.lt_succ_self _)))
    hsp.moved ⟨fun i _ => hs₁.within i trivial, hs₁.drawn⟩ (hderived ▸ hs₁.within id trivial)
  have hw₃ := (checkpointWith_relocked hsp.checked).weights
  refine ⟨(hw₁.trans hw₂).trans ⟨hw₃.tokens, hw₃.weights⟩, ?_⟩
  let sa : State := { s₂ with lockedDerivedAmount := Function.update s₂.lockedDerivedAmount id d }
  have hpoints : SamePoints s₂ sa := ⟨rfl, rfl, rfl, rfl, rfl⟩
  exact Derives.settle hs₂ hpoints ⟨rfl, rfl⟩
    (fun i hi => ⟨Function.update_of_ne hi _ _, rfl⟩) (Function.update_self ..) hd (hnear id) hsp.checked

/-- the guards of a withdrawal, and the derived amount it computes -/
theorem withdraw_computes {token : Address} {id : ℕ} (h : withdraw cfg s env token id = .ok s') :
    ∃ derived s₁ s₂, isApprovedOrOwner s env.sender id ∧
      calculateDerivedAmount (s.lockedAmounts id token) (s.lockedDerivedAmount id) 0 (s.tokenWeights token)
        (cfg.decimals token) = .ok derived ∧ WithdrawSteps cfg s env token id derived s₁ s₂ s' := by
  simp only [withdraw, require_bind] at h
  obtain ⟨hallowed, hover, hpos, h⟩ := h
  obtain ⟨derived, hderived, h⟩ := bind_ok.1 h
  obtain ⟨sa, ha, h⟩ := bind_ok.1 h
  obtain ⟨sb, hb, h⟩ := bind_ok.1 h
  exact ⟨derived, sa, sb, hallowed, hderived, hover, hpos, ha, hb, h⟩

theorem withdraw_derives {token : Address} {id : ℕ} (h : withdraw cfg s env token id = .ok s')
    (hlisted : ∀ t, s.lockedAmounts id t ≠ 0 → t ∈ s.tokens) (hs : DerivesAll cfg s) :
    SameWeights s s' ∧ DerivesAll cfg s' := by
  obtain ⟨d, s₁, s₂, -, hd, hw⟩ := withdraw_computes h
  have hexpired := hw.expired
  have hpos := hw.amount_pos
  have hreowned := burnIfEmpty_reowned hw.burned
  have hafter := hreowned.frame.trans (transferUnderlyingToken_rebalanced hw.paid).frame
  have hweights := hreowned.weights.trans (transferUnderlyingToken_rebalanced hw.paid).relocked.weights
  have hw₁ := (checkpointWith_relocked hw.checked).weights
  let sa : State := { s with
    lockedEnd := Function.update s.lockedEnd id (if d = 0 then 0 else s.lockedEnd id)
    lockedDerivedAmount := Function.update s.lockedDerivedAmount id d
    lockedAmounts := update2 s.lockedAmounts id token 0 }
  have hwa : SameWeights s sa := ⟨rfl, rfl⟩
  have hs₁ : DerivesAll cfg s₁ := by
    have hpoints : SamePoints s sa := ⟨rfl, rfl, rfl, rfl, rfl⟩
    refine Derives.settle ⟨fun i _ => hs.within i trivial, hs.drawn⟩ hpoints hwa
      (fun i hi => ⟨Function.update_of_ne hi _ _, update2_of_ne hi⟩) (Function.update_self ..) ?_ ?_ hw.checked
    · exact hwa.derived_le (hlisted token (by omega)) update2_row hd (hs.within id trivial)
    · exact ((keptEnd_le d _).trans hexpired).trans (Nat.le_add_right _ _)
  exact ⟨(hwa.trans ⟨hw₁.tokens, hw₁.weights⟩).trans hweights, hafter.derives hweights.keeps hs₁⟩

theorem withdrawTokens_derives {id : ℕ} (tokens : List Address) (h : withdrawTokens cfg env id tokens s = .ok s')
    (ho : Orderly cfg env.timestamp s) (hs : DerivesAll cfg s) : SameWeights s s' ∧ DerivesAll cfg s' := by
  let J : State → Prop := fun s => Orderly cfg env.timestamp s ∧ DerivesAll cfg s
  have hloop : J s → SameWeights s s' ∧ J s' := by
    refine withdrawTokens_rel (R := fun s s' => J s → SameWeights s s' ∧ J s') (fun _ hJ => ⟨.refl _, hJ⟩)
      (fun h h' hJ => ⟨(h hJ).1.trans (h' (h hJ).2).1, (h' (h hJ).2).2⟩) (fun {sa sb token} ha hJ => ?_) tokens h
    obtain ⟨hwa, hsa⟩ := withdraw_derives ha (fun t => hJ.1.listed id t) hJ.2
    have hcall : exec cfg sa env (.withdraw token id) = .ok sb := ha
    exact ⟨hwa, hJ.1.step le_rfl hcall, hsa⟩
  exact ⟨(hloop ⟨ho, hs⟩).1, (hloop ⟨ho, hs⟩).2.2⟩

/-- the calls without a checkpoint keep the weights of the tokens so far -/
theorem exec_keepsWeights {call : Call} (hc : call.checkpoints = false) (h : exec cfg s env call = .ok s') :
    KeepsWeights s s' := by
  have hsame : ∀ {s' : State}, s'.tokens = s.tokens → s'.tokenWeights = s.tokenWeights → KeepsWeights s s' :=
    fun h1 h2 => SameWeights.keeps ⟨h1, h2⟩
  cases call with
  | safeTransferFrom src dst id received => exact (safeTransferFrom_reowned h).weights.keeps
  | approve approved id => exact (approve_reowned h).weights.keeps
  | setApprovalForAll operator approved =>
    simp only [exec, setApprovalForAll, require_bind, pure_ok] at h
    obtain ⟨-, rfl⟩ := h
    exact hsame rfl rfl
  | announceAction type =>
    simp only [exec, announceAction, require_bind, uadd_bind, pure_ok] at h
    obtain ⟨-, -, -, rfl⟩ := h
    exact hsame rfl rfl
  | whitelistTransferFor value =>
    simp only [exec, whitelistTransferFor, require_bind, pure_ok] at h
    obtain ⟨-, -, -, rfl⟩ := h
    exact hsame rfl rfl
  | addToken token weight =>
    simp only [exec, addToken, require_bind, pure_ok] at h
    obtain ⟨-, -, -, -, hnew, rfl⟩ := h
    -- a weight is set only with its token
    refine ⟨fun t ht => List.mem_append_left _ ht, fun t ht => Function.update_of_ne ?_ _ _⟩
    rintro rfl
    exact hnew ht
  | tokenTransfer token dst amount =>
    obtain ⟨-, h⟩ := require_bind.1 h
    obtain ⟨_, -, ⟨⟩⟩ := bind_ok.1 h
    exact hsame rfl rfl
  | tokenTransferFrom token src dst amount =>
    obtain ⟨-, h⟩ := require_bind.1 h
    obtain ⟨_, -, ⟨⟩⟩ := bind_ok.1 h
    exact hsame rfl rfl
  | tokenApprove token spender amount =>
    obtain ⟨-, h⟩ := require_bind.1 h
    obtain ⟨_, -, ⟨⟩⟩ := bind_ok.1 h
    exact hsame rfl rfl
  | _ => exact absurd hc (by simp [Call.checkpoints])

/-- **One call** keeps derived amounts within the contributions, and last points on their lines. -/
theorem exec_derives {call : Call} (ho : Orderly cfg env.timestamp s) (h : exec cfg s env call = .ok s')
    (hs : DerivesAll cfg s) : DerivesAll cfg s' := by
  cases call with
  | createLockFor token value d dst received =>
    obtain ⟨⟨_, id⟩, h1, ⟨⟩⟩ := bind_ok.1 h
    exact (createLockFor_derives h1 ho.vault (ho.valid token) hs).2
  | createLock token value d received =>
    obtain ⟨⟨_, id⟩, h1, ⟨⟩⟩ := bind_ok.1 h
    exact (createLockFor_derives h1 ho.vault (ho.valid token) hs).2
  | increaseAmount token id value => exact (increaseAmount_derives h (ho.valid token) (ho.near id) hs).2
  | increaseUnlockTime id d =>
    obtain ⟨⟨_, power, date⟩, h1, ⟨⟩⟩ := bind_ok.1 h
    exact (increaseUnlockTime_derives h1 hs).2
  | merge src dst => exact (merge_derives h ho.near hs).2
  | split id percent received => exact (split_derives h ho.vault ho.near hs).2
  | withdraw token id => exact (withdraw_derives h (ho.listed id) hs).2
  | withdrawAll id => exact (withdrawTokens_derives _ h ho hs).2
  | checkpoint =>
    have hc : checkpointWith s env ⟨0, 0, 0, 0, 0⟩ = .ok s' := h
    have hlocks := (checkpointWith_locks hc).1
    refine ⟨fun i _ => ?_, fun i => ?_⟩
    · rw [hlocks.derived, (checkpointWith_relocked hc).weights.contributions (congrFun hlocks.amounts i)]
      exact hs.within i trivial
    · obtain ⟨f, -, ⟨⟩⟩ := bind_ok.1 h
      exact hs.drawn i
  | _ => exact (exec_frame rfl h).derives (exec_keepsWeights rfl h) hs

theorem deploy_derives (env : Env) (erc20 : Address → ERC20) (shady : Address) :
    DerivesAll cfg (deploy env erc20 shady) :=
  ⟨fun _ _ => Nat.zero_le _, fun _ => .inl rfl⟩

/-! ## Power -/

theorem slopeOf_mul_le {d : ℕ} (h : 0 ≤ slopeOf d) : slopeOf d * MAX_TIME ≤ d := by
  have hcast : asInt128 d ≤ d := by
    rw [asInt128, Int.bmod_def]
    norm_num
    split_ifs <;> omega
  rcases le_or_gt 0 (asInt128 d) with hpos | hneg
  · rw [slopeOf, Int.tdiv_eq_ediv_of_nonneg hpos]
    exact (Int.ediv_mul_le _ (by decide)).trans hcast
  · -- a cast to less than zero leaves no slope
    have hle : slopeOf d ≤ 0 := by
      have hopposite : 0 ≤ (-asInt128 d).tdiv MAX_TIME := Int.tdiv_nonneg (by omega) (Int.natCast_nonneg _)
      rw [Int.neg_tdiv] at hopposite
      exact neg_nonneg.1 hopposite
    rw [le_antisymm hle h, zero_mul]
    exact Int.natCast_nonneg d

theorem le_of_slopeOf_neg {d : ℕ} (h : slopeOf d < 0) : 2 ^ 127 ≤ d := by
  by_contra hlt
  have hfits : IsInt128 d := by
    constructor
    · exact le_trans (by norm_num) (Int.natCast_nonneg d)
    · norm_num
      omega
  rw [slopeOf, asInt128_eq hfits] at h
  have hnonneg : 0 ≤ (d : ℤ).tdiv MAX_TIME := Int.tdiv_nonneg (Int.natCast_nonneg d) (Int.natCast_nonneg _)
  omega

/-- **The power of a lock** is at most its derived amount: its slope lasts 16 weeks at most. -/
theorem Drawn.balance_le {i t b : ℕ} (hs : Drawn s i) (ht : t < 2 ^ 127) (h : balanceOfNFTAt s i t = .ok b) :
    b ≤ s.lockedDerivedAmount i := by
  unfold balanceOfNFTAt at h
  by_cases h0 : s.userPointEpoch i = 0
  · rw [if_pos h0] at h
    cases h
    exact Nat.zero_le _
  obtain ⟨-, lockEnd, hend, hline⟩ := hs.resolve_left h0
  rw [if_neg h0] at h
  dsimp only at h
  rw [show s.userPointHistory i (s.userPointEpoch i) = userPoint s i from rfl] at h
  generalize userPoint s i = u at *
  generalize s.lockedDerivedAmount i = d at *
  obtain ⟨hts, h⟩ := require_bind.1 h
  obtain ⟨dt, hdt, h⟩ := bind_ok.1 h
  simp only [i128_bind, pure_ok] at h
  obtain ⟨-, hfits, rfl⟩ := h
  -- the time since the point
  have hdt' : dt = ((t - u.ts : ℕ) : ℤ) := by
    rw [asInt256_of_lt ht, asInt256_of_lt (lt_of_le_of_lt hts ht)] at hdt
    unfold i256 at hdt
    split_ifs at hdt
    cases hdt
    omega
  have hdt0 : 0 ≤ dt := hdt' ▸ Int.natCast_nonneg _
  have hcast : asInt128 dt = dt := by
    refine asInt128_eq ⟨le_trans (by norm_num) hdt0, ?_⟩
    norm_num
    omega
  rw [hcast] at hfits ⊢
  have hle : u.bias - u.slope * dt ≤ d := by
    unfold lockLine at hline
    split_ifs at hline with hlive
    · simp only [i128_bind, pure_ok, Prod.mk.injEq] at hline
      obtain ⟨-, hslope, hbias⟩ := hline
      rw [asInt128_week (by omega)] at hbias
      rw [← hslope, ← hbias] at hfits ⊢
      rcases le_or_gt 0 (slopeOf d) with hpos | hneg
      · have hlast : slopeOf d * ((lockEnd - u.ts : ℕ) : ℤ) ≤ slopeOf d * MAX_TIME :=
          mul_le_mul_of_nonneg_left (by omega) hpos
        have hdecay := mul_nonneg hpos hdt0
        have hd := slopeOf_mul_le hpos
        linarith
      · -- a wrapped amount is more than any power
        have hd := le_of_slopeOf_neg hneg
        have hpower := hfits.2
        have hd' : (2 : ℤ) ^ 127 ≤ d := by exact_mod_cast hd
        linarith
    · obtain ⟨hslope, hbias⟩ := Prod.mk.inj (Except.ok.inj hline)
      rw [← hslope, ← hbias]
      simp
  rw [Int.toNat_le]
  exact max_le hle (Int.natCast_nonneg d)

/-- **Derived power is never inflated.** After every run of calls in the order of time, the derived amount of every NFT
is at most the sum of the contributions of its locked amounts, and its voting power now is at most its derived amount. -/
theorem derived_power (cfg : Config) (env₀ : Env) (erc20 : Address → ERC20) (shady : Address)
    (calls : List (Env × Call)) (hfresh : ∀ token spender, (erc20 token).allowance cfg.self spender = 0) (env : Env)
    (hts : env.timestamp < 2 ^ 127) (horder : InOrder env.timestamp calls) (id : ℕ) :
    let s := run (execIn cfg) (deploy env₀ erc20 shady) calls
    s.lockedDerivedAmount id ≤ ∑ t ∈ s.tokens.toFinset,
        s.lockedAmounts id t * 10 ^ 18 / 10 ^ cfg.decimals t * s.tokenWeights t / WEIGHT_DENOMINATOR ∧
      ∀ b, balanceOfNFTAt s id env.timestamp = .ok b → b ≤ s.lockedDerivedAmount id := by
  intro s
  have hs : Orderly cfg env.timestamp s ∧ DerivesAll cfg s := by
    refine run_until (execIn cfg) (fun c => c.1.timestamp) (fun t t' => t ≤ t')
      (I := fun t s => Orderly cfg t s ∧ DerivesAll cfg s) (P := fun _ _ => True) ?_ ?_ calls _ 0 env.timestamp
      ⟨deploy_orderly env₀ shady hfresh, deploy_derives env₀ erc20 shady⟩ (Nat.zero_le _)
      (fun c hc => ⟨Nat.zero_le _, horder.past c hc⟩) horder.ordered (along_true _ _ _)
    · rintro t t' s hle ⟨ho, hs⟩
      exact ⟨ho.mono hle, hs⟩
    · rintro t s c s' ⟨ho, hs⟩ hle - h
      exact ⟨ho.step hle h, exec_derives (ho.mono hle) h hs⟩
  exact ⟨hs.2.within id trivial, fun b hb => (hs.2.drawn id).balance_le hts hb⟩

/-- a lock of 10^24, a week later -/
theorem derived_power_oneLock :
    let s := run (execIn exampleConfig) exampleDeploy [oneLock]
    s.lockedDerivedAmount 1 = 10 ^ 24 ∧
      s.lockedDerivedAmount 1 ≤ ∑ t ∈ s.tokens.toFinset,
        s.lockedAmounts 1 t * 10 ^ 18 / 10 ^ exampleConfig.decimals t * s.tokenWeights t / WEIGHT_DENOMINATOR ∧
      ∀ b, balanceOfNFTAt s 1 (101 * WEEK) = .ok b → b ≤ s.lockedDerivedAmount 1 := by
  refine ⟨by decide +kernel, ?_⟩
  exact derived_power exampleConfig (exampleEnv (100 * WEEK)) exampleTokens 7 [oneLock] exampleTokens_fresh (exampleEnv (101 * WEEK))
    (by decide) ⟨by decide, by decide⟩ 1

end SimContracts.Ve
