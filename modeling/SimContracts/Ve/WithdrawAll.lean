/-
Withdrawing everything. The withdrawal that takes the derived amount to nothing burns the NFT. Since each withdrawal takes
off its token's contribution rounded up, this can happen while other tokens are still locked: their contributions rounded
down to nothing, or were eaten up. Then the NFT has no owner any more, and what is locked in it stays there.

Results:
  withdraw_withdrawn            what a withdrawal leaves
  withdrawTokens_succeeds_iff   the loop of withdrawAll goes through when no token but the last uses up the derived amount
  withdrawTokens_pays           and then it pays every locked amount
  withdraw_strands              when a withdrawal strands nothing, and when withdrawAll pays out
-/
import SimContracts.Ve.Withdrawals

namespace SimContracts.Ve

open Solidity

variable {cfg : Config} {s s' s₁ s₂ : State} {env : Env} {token : Address} {id : ℕ}

/-! ## Global histories -/

/-- same global history and schedule -/
structure SameGlobals (s s' : State) : Prop where
  epoch : s'.epoch = s.epoch
  pointHistory : s'.pointHistory = s.pointHistory
  slopeChanges : s'.slopeChanges = s.slopeChanges

theorem SameGlobals.symm (h : SameGlobals s s') : SameGlobals s' s :=
  ⟨h.epoch.symm, h.pointHistory.symm, h.slopeChanges.symm⟩

theorem SameHistory.globals (h : SameHistory s s') : SameGlobals s s' := ⟨h.epoch, h.pointHistory, h.slopeChanges⟩

theorem SameGlobals.trans (h : SameGlobals s s₁) (h' : SameGlobals s₁ s₂) : SameGlobals s s₂ :=
  ⟨h'.epoch.trans h.epoch, h'.pointHistory.trans h.pointHistory, h'.slopeChanges.trans h.slopeChanges⟩

theorem SameGlobals.fillHistory (h : SameGlobals s s') : fillHistory s' env = fillHistory s env := by
  unfold Ve.fillHistory
  rw [h.epoch, h.pointHistory, h.slopeChanges]

theorem SameGlobals.checkpoints (h : SameGlobals s s') (n : ℕ) (hc : Succeeds (checkpoints env n s)) :
    Succeeds (checkpoints env n s') := by
  induction n generalizing s s' with
  | zero => exact succeeds_ok s'
  | succ n ih =>
    obtain ⟨s₁, h₁, hrest⟩ := succeeds_bind.1 hc
    obtain ⟨f, hf, rfl⟩ := checkpoint_ok.1 h₁
    refine succeeds_bind.2 ⟨_, checkpoint_ok.2 ⟨f, h.fillHistory.trans hf, rfl⟩, ih ?_ hrest⟩
    exact ⟨rfl, rfl, h.slopeChanges⟩

/-! ## What a withdrawal leaves -/

theorem burn_owner (h : burn s env id = .ok s') (hs : Listed s) : s'.idToOwner id = 0 := by
  obtain ⟨s₁, h₁, h₂⟩ := bind_ok.1 h
  rw [(removeTokenFrom_holdings h₂ (approve_listed h₁ hs).holdings).2.1, Function.update_self]

/-- one amount is paid out; the NFT keeps its owner as long as it keeps a derived amount -/
structure Withdrawn (cfg : Config) (s : State) (env : Env) (token : Address) (id : ℕ) (s' : State) : Prop where
  amounts : s'.lockedAmounts = update2 s.lockedAmounts id token 0
  derived : s'.lockedDerivedAmount id = s.lockedDerivedAmount id - takenOff cfg s id token
  expired : s'.lockedEnd id ≤ env.timestamp
  points : s'.userPointEpoch id = s.userPointEpoch id + 1
  weights : SameWeights s s'
  globals : ∃ s₁, checkpoint s env = .ok s₁ ∧ SameGlobals s₁ s'
  burned : s.lockedDerivedAmount id ≤ takenOff cfg s id token → s.idToOwner id ≠ 0 ∧ s'.idToOwner id = 0
  kept : takenOff cfg s id token < s.lockedDerivedAmount id → s'.idToOwner id = s.idToOwner id
  paid : ∃ t, (s.erc20 token).transfer cfg.self env.sender (s.lockedAmounts id token) = .ok t ∧
    s'.erc20 = Function.update s.erc20 token t

theorem withdraw_withdrawn (h : withdraw cfg s env token id = .ok s') (hs : Accounted cfg s) :
    Withdrawn cfg s env token id s' := by
  obtain ⟨d, s₁, s₂, -, hd, hw⟩ := withdraw_computes h
  have hamount := hw.amount_pos
  have hexpired := hw.expired
  have hd := ((derivedLeft_ok hamount (hs.words id)).1 hd).2
  have hend := (keptEnd_le d (s.lockedEnd id)).trans hexpired
  obtain ⟨f, hf, -, hs₁⟩ := (checkpointWith_over (hs.id_ne hamount) hexpired hend).1 hw.checked
  have hlocks := (checkpointWith_locks hw.checked).1
  have howners : SameOwners s s₁ := hw.relocked.owners
  have hreowned := burnIfEmpty_reowned hw.burned
  have hafter := hreowned.frame.trans (transferUnderlyingToken_rebalanced hw.paid).frame
  have hpaidOwners := (transferUnderlyingToken_rebalanced hw.paid).relocked.owners.owner
  have hburned := hw.burned
  have hweights : SameWeights s s₁ := by
    obtain ⟨htokens, hw'⟩ := (checkpointWith_relocked hw.checked).weights
    exact ⟨htokens, hw'⟩
  unfold burnIfEmpty at hburned
  refine ⟨hafter.locks.amounts.trans hlocks.amounts, ?_, ?_, ?_, ?_, ⟨_, checkpoint_ok.2 ⟨f, hf, rfl⟩, ?_⟩, fun hle => ?_,
    fun hlt => ?_, ?_⟩
  · rw [hafter.locks.derived, hlocks.derived]
    show Function.update s.lockedDerivedAmount id d id = _
    rw [Function.update_self, hd, takenOff]
  · rw [hafter.locks.ends, hlocks.ends]
    show Function.update s.lockedEnd id _ id ≤ _
    rw [Function.update_self]
    exact hend
  · rw [hafter.history.userPointEpoch, hs₁]
    exact Function.update_self ..
  · exact hweights.trans (hreowned.weights.trans (transferUnderlyingToken_rebalanced hw.paid).relocked.weights)
  · refine SameGlobals.trans ?_ hafter.history.globals
    rw [hs₁]
    exact ⟨rfl, rfl, rfl⟩
  · rw [if_pos (hd.trans (Nat.sub_eq_zero_of_le hle))] at hburned
    have hmay := (burn_succeeds_iff (howners.listed hs.owners)).1 ⟨_, hburned⟩
    exact ⟨(howners.mayBurn.1 hmay).1, (congrFun hpaidOwners id).trans (burn_owner hburned (howners.listed hs.owners))⟩
  · have hleft : d ≠ 0 := by
      rw [hd]
      exact (Nat.sub_pos_of_lt hlt).ne'
    rw [if_neg hleft] at hburned
    cases hburned
    exact congrFun (hpaidOwners.trans howners.owner) id
  · obtain ⟨t, ht, hpaid⟩ := bind_ok.1 hw.paid
    have herc20 : s₂.erc20 = s.erc20 := hreowned.tokens.erc20.trans (by rw [hs₁])
    rw [herc20] at ht
    refine ⟨t, ht, ?_⟩
    rw [← pure_ok.1 hpaid, herc20]

theorem withdraw_accounted (h : withdraw cfg s env token id = .ok s') (hs : Accounted cfg s) : Accounted cfg s' := by
  have hcall : exec cfg s env (.withdraw token id) = .ok s' := h
  exact exec_accounted hcall hs

/-- the owner of a lock that is over can withdraw if the arithmetic allows it -/
theorem Accounted.withdraw_iff (hs : Accounted cfg s) (hself : cfg.self ≠ 0) (hsender : env.sender ≠ 0)
    (howner : s.idToOwner id = env.sender) (hexpired : s.lockedEnd id ≤ env.timestamp)
    (hamount : 0 < s.lockedAmounts id token) :
    Succeeds (withdraw cfg s env token id) ↔ Computes cfg s env token id := by
  have hallowed : isApprovedOrOwner s env.sender id := by
    simp [isApprovedOrOwner, howner]
  have hburn : MayBurn s env id := ⟨howner ▸ hsender, .inl howner⟩
  have hpaid : Succeeds (transferUnderlyingToken cfg s token env.sender (s.lockedAmounts id token)) := by
    refine Succeeds.bind ?_ fun t _ => succeeds_pure _
    refine succeeds_require.2 ⟨hself, succeeds_require.2 ⟨hsender, succeeds_require.2 ⟨hs.held_ge id token, ?_⟩⟩⟩
    exact succeeds_pure _
  rw [withdraw_succeeds_iff hs hamount]
  exact ⟨fun h => h.2.2.1, fun h => ⟨hallowed, hexpired, h, fun _ => hburn, hpaid⟩⟩

/-! ## The loop of withdrawAll -/

/-- the tokens of a list that an NFT has locked, in their order -/
def lockedOf (s : State) (id : ℕ) (tokens : List Address) : List Address :=
  tokens.filter fun t => s.lockedAmounts id t ≠ 0

theorem mem_lockedOf {tokens : List Address} {t : Address} :
    t ∈ lockedOf s id tokens ↔ t ∈ tokens ∧ s.lockedAmounts id t ≠ 0 := by
  simp [lockedOf]

theorem lockedOf_zero {rest : List Address} (h : s.lockedAmounts id token = 0) :
    lockedOf s id (token :: rest) = lockedOf s id rest := by
  simp [lockedOf, h]

theorem lockedOf_pos {rest : List Address} (h : s.lockedAmounts id token ≠ 0) :
    lockedOf s id (token :: rest) = token :: lockedOf s id rest := by
  simp [lockedOf, h]

theorem Withdrawn.amount_eq (h : Withdrawn cfg s env token id s') {t : Address} (ht : t ≠ token) :
    s'.lockedAmounts id t = s.lockedAmounts id t := by
  rw [h.amounts, update2_row, Function.update_of_ne ht]

theorem Withdrawn.takenOff_eq (h : Withdrawn cfg s env token id s') {t : Address} (ht : t ≠ token) :
    takenOff cfg s' id t = takenOff cfg s id t := by
  rw [takenOff, takenOff, h.amount_eq ht, h.weights.weights]

theorem Withdrawn.lockedOf_eq (h : Withdrawn cfg s env token id s') {rest : List Address} (hrest : token ∉ rest) :
    lockedOf s' id rest = lockedOf s id rest := by
  refine List.filter_congr fun t ht => ?_
  have hne : t ≠ token := by
    rintro rfl
    exact hrest ht
  rw [h.amount_eq hne]

/-- the withdrawals of these tokens go through one after the other: none but the last uses up the derived amount, and the
arithmetic of all of them is possible -/
structure Drains (cfg : Config) (s : State) (env : Env) (id : ℕ) (tokens : List Address) : Prop where
  words : ∀ t ∈ tokens,
    InWords (s.lockedDerivedAmount id) (s.lockedAmounts id t) (s.tokenWeights t) (cfg.decimals t)
  room : tokens ≠ [] → s.userPointEpoch id + tokens.length < USER_POINTS
  checkpoints : Succeeds (checkpoints env tokens.length s)
  lasts : tokens.length ≤ 1 ∨ (tokens.dropLast.map (takenOff cfg s id)).sum < s.lockedDerivedAmount id

theorem Drains.head {rest : List Address} (h : Drains cfg s env id (token :: rest)) : Computes cfg s env token id := by
  have hroom := h.room (List.cons_ne_nil _ _)
  rw [List.length_cons] at hroom
  exact ⟨h.words token List.mem_cons_self, by omega, h.checkpoints.left⟩

theorem drains_single (h : Computes cfg s env token id) : Drains cfg s env id [token] := by
  refine ⟨fun t ht => ?_, fun _ => h.room, ?_, .inl le_rfl⟩
  · rw [List.mem_singleton.1 ht]
    exact h.words
  · obtain ⟨s₁, h₁⟩ := h.checkpoint
    exact succeeds_bind.2 ⟨s₁, h₁, succeeds_ok s₁⟩

/-- with something left, words do not depend on how much -/
theorem InWords.left {d d' amount weight decimals : ℕ} (h : InWords d amount weight decimals) (hd : d ≠ 0) :
    InWords d' amount weight decimals :=
  ⟨h.unit, fun _ => h.units hd, fun _ => h.product hd⟩

theorem Withdrawn.checkpoints_iff (h : Withdrawn cfg s env token id s₁) (n : ℕ) :
    Succeeds (checkpoints env n s₁) ↔ Succeeds (checkpoints env (n + 1) s) := by
  obtain ⟨sc, hsc, hglobals⟩ := h.globals
  constructor
  · intro hc
    exact succeeds_bind.2 ⟨sc, hsc, hglobals.symm.checkpoints _ hc⟩
  · intro hc
    obtain ⟨sc', hsc', hrest⟩ := succeeds_bind.1 hc
    rw [hsc] at hsc'
    cases hsc'
    exact hglobals.checkpoints _ hrest

/-- what the rest takes off is as before, and all but the last still leave something -/
theorem Withdrawn.lasts_iff {rest : List Address} (h : Withdrawn cfg s env token id s₁)
    (hlt : takenOff cfg s id token < s.lockedDerivedAmount id) (hne : rest ≠ []) (htoken : token ∉ rest) :
    (rest.length ≤ 1 ∨ (rest.dropLast.map (takenOff cfg s₁ id)).sum < s₁.lockedDerivedAmount id) ↔
      (token :: rest).length ≤ 1 ∨
        ((token :: rest).dropLast.map (takenOff cfg s id)).sum < s.lockedDerivedAmount id := by
  have hsum : (rest.dropLast.map (takenOff cfg s₁ id)).sum = (rest.dropLast.map (takenOff cfg s id)).sum := by
    refine congrArg List.sum (List.map_congr_left fun t ht => h.takenOff_eq ?_)
    rintro rfl
    exact htoken (List.mem_of_mem_dropLast ht)
  have hlength := List.length_pos_of_ne_nil hne
  rw [hsum, h.derived, List.dropLast_cons_of_ne_nil hne, List.map_cons, List.sum_cons, List.length_cons]
  generalize takenOff cfg s id token = up at hlt ⊢
  constructor
  · rintro (hone | hrest)
    · have hnone : rest.dropLast = [] := by
        apply List.eq_nil_of_length_eq_zero
        rw [List.length_dropLast]
        omega
      have hzero : (rest.dropLast.map (takenOff cfg s id)).sum = 0 := by rw [hnone, List.map_nil, List.sum_nil]
      exact .inr (by omega)
    · exact .inr (by omega)
  · rintro (hone | hrest)
    · omega
    · exact .inr (by omega)

/-- **One round.** With other tokens still to come, the first withdrawal must leave a derived amount; then the rest is
as before with less of it. -/
theorem Withdrawn.drains_iff {rest : List Address} (h : Withdrawn cfg s env token id s₁)
    (hcomputes : Computes cfg s env token id) (hlt : takenOff cfg s id token < s.lockedDerivedAmount id) (hne : rest ≠ [])
    (htoken : token ∉ rest) : Drains cfg s₁ env id rest ↔ Drains cfg s env id (token :: rest) := by
  have hother : ∀ t ∈ rest, t ≠ token := by
    rintro t ht rfl
    exact htoken ht
  have hpos : s.lockedDerivedAmount id ≠ 0 := by omega
  have hleft : s₁.lockedDerivedAmount id ≠ 0 := by
    rw [h.derived]
    omega
  have hcheckpoints := h.checkpoints_iff rest.length
  have hlasts := h.lasts_iff hlt hne htoken
  constructor
  · intro hd
    refine ⟨fun t ht => ?_, fun _ => ?_, hcheckpoints.1 hd.checkpoints, hlasts.1 hd.lasts⟩
    · rcases List.mem_cons.1 ht with rfl | ht
      · exact hcomputes.words
      · have hwords := hd.words t ht
        rw [h.amount_eq (hother t ht), h.weights.weights] at hwords
        exact hwords.left hleft
    · have hroom := hd.room hne
      rw [h.points] at hroom
      rw [List.length_cons]
      omega
  · intro hd
    refine ⟨fun t ht => ?_, fun _ => ?_, hcheckpoints.2 hd.checkpoints, hlasts.2 hd.lasts⟩
    · rw [h.amount_eq (hother t ht), h.weights.weights]
      exact (hd.words t (List.mem_cons_of_mem _ ht)).left hpos
    · have hroom := hd.room (List.cons_ne_nil _ _)
      rw [List.length_cons] at hroom
      rw [h.points]
      omega

/-- with nothing locked the loop does nothing -/
theorem withdrawTokens_none {tokens : List Address} (h : lockedOf s id tokens = []) :
    withdrawTokens cfg env id tokens s = .ok s := by
  induction tokens with
  | nil => rfl
  | cons token rest ih =>
    by_cases h0 : s.lockedAmounts id token = 0
    · rw [lockedOf_zero h0] at h
      rw [withdrawTokens, if_neg fun hne => hne h0]
      exact ih h
    · rw [lockedOf_pos h0] at h
      cases h

/-- **A burned NFT keeps what is locked in it.** -/
theorem withdrawTokens_burned {tokens : List Address} (hs : Accounted cfg s) (howner : s.idToOwner id = 0)
    (hderived : s.lockedDerivedAmount id = 0) (hne : lockedOf s id tokens ≠ []) :
    ¬ Succeeds (withdrawTokens cfg env id tokens s) := by
  induction tokens with
  | nil => exact absurd rfl hne
  | cons token rest ih =>
    rw [withdrawTokens]
    by_cases h0 : s.lockedAmounts id token = 0
    · rw [if_neg fun hne => hne h0]
      rw [lockedOf_zero h0] at hne
      exact ih hne
    · rw [if_pos h0]
      intro h
      -- the withdrawal would burn it again
      have hw := (withdraw_succeeds_iff hs (Nat.pos_of_ne_zero h0)).1 h.left
      have hburn := hw.2.2.2.1 (hderived.trans_le (Nat.zero_le _))
      exact hburn.1 howner

/-- **When everything can be withdrawn.** -/
theorem withdrawTokens_succeeds_iff (tokens : List Address) (hself : cfg.self ≠ 0) (hsender : env.sender ≠ 0)
    (hnodup : tokens.Nodup) (hs : Accounted cfg s) (howner : s.idToOwner id = env.sender)
    (hexpired : s.lockedEnd id ≤ env.timestamp) :
    Succeeds (withdrawTokens cfg env id tokens s) ↔ Drains cfg s env id (lockedOf s id tokens) := by
  induction tokens generalizing s with
  | nil => exact ⟨fun _ => ⟨nofun, fun h => absurd rfl h, succeeds_ok s, .inl (Nat.zero_le 1)⟩, fun _ => succeeds_ok s⟩
  | cons token rest ih =>
    obtain ⟨hnotin, hnodup⟩ := List.nodup_cons.1 hnodup
    rw [withdrawTokens]
    by_cases h0 : s.lockedAmounts id token = 0
    · rw [if_neg fun hne => hne h0, lockedOf_zero h0]
      exact ih hnodup hs howner hexpired
    have hiff := hs.withdraw_iff hself hsender howner hexpired (Nat.pos_of_ne_zero h0)
    have hnotin' : token ∉ lockedOf s id rest := fun h => hnotin (mem_lockedOf.1 h).1
    rw [if_pos h0, lockedOf_pos h0, succeeds_bind]
    by_cases hempty : lockedOf s id rest = []
    · -- the last one: nothing is left to withdraw
      rw [hempty]
      constructor
      · rintro ⟨s₁, h₁, -⟩
        exact drains_single (hiff.1 ⟨s₁, h₁⟩)
      · intro hd
        obtain ⟨s₁, h₁⟩ := hiff.2 hd.head
        have hw := withdraw_withdrawn h₁ hs
        rw [← hw.lockedOf_eq hnotin] at hempty
        exact ⟨s₁, h₁, s₁, withdrawTokens_none hempty⟩
    · constructor
      · rintro ⟨s₁, h₁, hrest⟩
        have hw := withdraw_withdrawn h₁ hs
        have hs₁ := withdraw_accounted h₁ hs
        rw [← hw.lockedOf_eq hnotin] at hempty hnotin' ⊢
        rcases le_or_gt (s.lockedDerivedAmount id) (takenOff cfg s id token) with hle | hlt
        · have hzero : s₁.lockedDerivedAmount id = 0 := hw.derived.trans (Nat.sub_eq_zero_of_le hle)
          exact absurd hrest (withdrawTokens_burned hs₁ (hw.burned hle).2 hzero hempty)
        · have hd := (ih hnodup hs₁ ((hw.kept hlt).trans howner) hw.expired).1 hrest
          exact (hw.drains_iff (hiff.1 ⟨s₁, h₁⟩) hlt hempty hnotin').1 hd
      · intro hd
        obtain ⟨s₁, h₁⟩ := hiff.2 hd.head
        have hw := withdraw_withdrawn h₁ hs
        have hs₁ := withdraw_accounted h₁ hs
        have hlt : takenOff cfg s id token < s.lockedDerivedAmount id := by
          have hlength := List.length_pos_of_ne_nil hempty
          have hlasts := hd.lasts
          rw [List.dropLast_cons_of_ne_nil hempty, List.map_cons, List.sum_cons, List.length_cons] at hlasts
          omega
        rw [← hw.lockedOf_eq hnotin] at hempty hnotin' hd
        have hd₁ := (hw.drains_iff (hiff.1 ⟨s₁, h₁⟩) hlt hempty hnotin').2 hd
        exact ⟨s₁, h₁, (ih hnodup hs₁ ((hw.kept hlt).trans howner) hw.expired).2 hd₁⟩

/-! ## What is paid -/

theorem Withdrawn.pays (h : Withdrawn cfg s env token id s') (hsender : env.sender ≠ cfg.self) (t : Address) :
    (s'.erc20 t).balanceOf env.sender =
      (s.erc20 t).balanceOf env.sender + if t = token then s.lockedAmounts id token else 0 := by
  obtain ⟨t', ht', hpaid⟩ := h.paid
  rw [hpaid]
  by_cases ht : t = token
  · subst ht
    rw [Function.update_self, ERC20.transfer_other ht' hsender, if_pos rfl, if_pos rfl]
  · rw [Function.update_of_ne ht, if_neg ht, Nat.add_zero]

/-- the loop clears what it goes over, and pays it -/
theorem withdrawTokens_pays {tokens : List Address} (h : withdrawTokens cfg env id tokens s = .ok s')
    (hnodup : tokens.Nodup) (hs : Accounted cfg s) (hsender : env.sender ≠ cfg.self) (t : Address) :
    s'.lockedAmounts id t = (if t ∈ tokens then 0 else s.lockedAmounts id t) ∧
      (s'.erc20 t).balanceOf env.sender =
        (s.erc20 t).balanceOf env.sender + if t ∈ tokens then s.lockedAmounts id t else 0 := by
  induction tokens generalizing s with
  | nil =>
    cases h
    exact ⟨rfl, rfl⟩
  | cons token rest ih =>
    obtain ⟨hnotin, hnodup⟩ := List.nodup_cons.1 hnodup
    rw [withdrawTokens] at h
    by_cases h0 : s.lockedAmounts id token = 0
    · rw [if_neg fun hne => hne h0] at h
      obtain ⟨hamount, hbalance⟩ := ih h hnodup hs
      rw [hamount, hbalance]
      by_cases ht : t = token
      · subst ht
        rw [if_neg hnotin, if_neg hnotin, if_pos List.mem_cons_self, if_pos List.mem_cons_self, h0]
        exact ⟨rfl, rfl⟩
      · have hmem : t ∈ token :: rest ↔ t ∈ rest := by simp [ht]
        rw [if_congr hmem rfl rfl, if_congr hmem rfl rfl]
        exact ⟨rfl, rfl⟩
    · rw [if_pos h0] at h
      obtain ⟨s₁, h₁, h⟩ := bind_ok.1 h
      have hw := withdraw_withdrawn h₁ hs
      obtain ⟨hamount, hbalance⟩ := ih h hnodup (withdraw_accounted h₁ hs)
      rw [hamount, hbalance, hw.pays hsender]
      by_cases ht : t = token
      · subst ht
        rw [if_neg hnotin, if_neg hnotin, if_pos rfl, if_pos List.mem_cons_self, if_pos List.mem_cons_self, hw.amounts,
          update2_row, Function.update_self]
        exact ⟨rfl, rfl⟩
      · have hmem : t ∈ token :: rest ↔ t ∈ rest := by simp [ht]
        rw [if_congr hmem rfl rfl, if_congr hmem rfl rfl, hw.amount_eq ht, if_neg ht, Nat.add_zero]
        exact ⟨rfl, rfl⟩

/-- **When withdrawing strands nothing.** In every state a run reaches: a withdrawal that burns the NFT leaves nothing
locked in it exactly when it leaves a derived amount or no other token is locked; and the owner of a lock that is over
withdraws everything with `withdrawAll` exactly when the withdrawals go through one after the other (`Drains`): none but the
last uses up the derived amount. -/
theorem withdraw_strands (cfg : Config) (env₀ : Env) (erc20 : Address → ERC20) (shady : Address) (calls : List (Env × Call))
    (hfresh : ∀ token spender, (erc20 token).allowance cfg.self spender = 0) (hself : cfg.self ≠ 0) :
    let s := run (execIn cfg) (deploy env₀ erc20 shady) calls
    (∀ env token id s', withdraw cfg s env token id = .ok s' →
      ((s.idToOwner id ≠ 0 → s'.idToOwner id = 0 → ∀ t, s'.lockedAmounts id t = 0) ↔
        (s.lockedDerivedAmount id ≤ takenOff cfg s id token → ∀ t, t ≠ token → s.lockedAmounts id t = 0))) ∧
      ∀ env id, s.idToOwner id = env.sender → env.sender ≠ 0 → env.sender ≠ cfg.self → s.lockedEnd id ≤ env.timestamp →
        ((∃ s', withdrawAll cfg s env id = .ok s' ∧ ∀ t, s'.lockedAmounts id t = 0 ∧
          (s'.erc20 t).balanceOf env.sender = (s.erc20 t).balanceOf env.sender + s.lockedAmounts id t) ↔
          Drains cfg s env id (lockedOf s id s.tokens)) := by
  intro s
  have hs : Accounted cfg s := run_accounted env₀ shady calls hfresh
  refine ⟨fun env token id s' h => ?_, fun env id howner hsender hother hexpired => ?_⟩
  · have hw := withdraw_withdrawn h hs
    constructor
    · intro hstrands hle t ht
      obtain ⟨howner, hgone⟩ := hw.burned hle
      rw [← hw.amount_eq ht]
      exact hstrands howner hgone t
    · intro hlast howner hgone t
      rcases le_or_gt (s.lockedDerivedAmount id) (takenOff cfg s id token) with hle | hlt
      · by_cases ht : t = token
        · rw [hw.amounts, update2_row, ht, Function.update_self]
        · rw [hw.amount_eq ht]
          exact hlast hle t ht
      · exact absurd ((hw.kept hlt).symm.trans hgone) howner
  · rw [← withdrawTokens_succeeds_iff s.tokens hself hsender hs.vault.nodup hs howner hexpired]
    constructor
    · rintro ⟨s', h, -⟩
      exact ⟨s', h⟩
    · rintro ⟨s', h⟩
      refine ⟨s', h, fun t => ?_⟩
      obtain ⟨hamount, hbalance⟩ := withdrawTokens_pays h hs.vault.nodup hs hother t
      by_cases ht : t ∈ s.tokens
      · rw [if_pos ht] at hamount hbalance
        exact ⟨hamount, hbalance⟩
      · -- what is not listed is not locked
        have h0 : s.lockedAmounts id t = 0 := by
          by_contra hne
          exact ht (hs.listed id t hne)
        rw [if_neg ht] at hamount hbalance
        rw [h0]
        exact ⟨hamount.trans h0, hbalance⟩

/-- SHADY and a second token of weight 10^-18 percent, locked together in NFT 1 -/
def twoTokens (value : ℕ) : List (Env × Call) :=
  [({ exampleEnv (100 * WEEK + 1) with sender := 99 }, .announceAction .ADD_TOKEN),
    ({ exampleEnv (100 * WEEK + 86400) with sender := 99 }, .addToken 8 1),
    (exampleEnv (100 * WEEK + 86405), .createLock 7 (10 ^ 24) (4 * WEEK) (.ok true)),
    (exampleEnv (100 * WEEK + 86410), .increaseAmount 8 1 value)]

/-- 10^24 of the second token contribute 10^4 -/
theorem withdraw_strands_twoTokens :
    let s := run (execIn exampleConfig) exampleDeploy (twoTokens (10 ^ 24))
    let env := exampleEnv (110 * WEEK)
    (∃ s', withdraw exampleConfig s env 7 1 = .ok s' ∧
      (s.idToOwner 1 ≠ 0 → s'.idToOwner 1 = 0 → ∀ t, s'.lockedAmounts 1 t = 0)) ∧
      ∃ s', withdrawAll exampleConfig s env 1 = .ok s' ∧ ∀ t, s'.lockedAmounts 1 t = 0 ∧
        (s'.erc20 t).balanceOf env.sender = (s.erc20 t).balanceOf env.sender + s.lockedAmounts 1 t := by
  intro s env
  obtain ⟨hone, hall⟩ := withdraw_strands exampleConfig (exampleEnv (100 * WEEK)) exampleTokens 7 (twoTokens (10 ^ 24))
    exampleTokens_fresh (by decide)
  have hlt : takenOff exampleConfig s 1 7 < s.lockedDerivedAmount 1 := by decide +kernel
  have hlocked : lockedOf s 1 s.tokens = [7, 8] := by decide +kernel
  have hwords : ∀ t ∈ [7, 8], InWords (s.lockedDerivedAmount 1) (s.lockedAmounts 1 t) (s.tokenWeights t) 18 := by
    intro t ht
    rcases List.mem_pair.1 ht with rfl | rfl
    · exact ⟨by decide, fun _ => by decide +kernel, fun _ => by decide +kernel⟩
    · exact ⟨by decide, fun _ => by decide +kernel, fun _ => by decide +kernel⟩
  obtain ⟨s', hs'⟩ := Res.failure_none (x := withdraw exampleConfig s env 7 1) (by decide +kernel)
  refine ⟨⟨s', hs', (hone env 7 1 s' hs').2 fun hle => absurd hle (not_le.2 hlt)⟩, ?_⟩
  have hdrains : Drains exampleConfig s env 1 (lockedOf s 1 s.tokens) := by
    rw [hlocked]
    refine ⟨hwords, fun _ => by decide +kernel, Res.failure_none (by decide +kernel), .inr ?_⟩
    decide +kernel
  exact (hall env 1 (by decide +kernel) (by decide) (by decide) (by decide +kernel)).2 hdrains

/-- Ten units of the second token (10^19) contribute nothing. The withdrawal of SHADY burns the NFT with them still locked,
and `withdrawAll` reverts. -/
theorem dust_stranded :
    let s := run (execIn exampleConfig) exampleDeploy (twoTokens (10 ^ 19))
    let env := exampleEnv (110 * WEEK)
    s.idToOwner 1 = env.sender ∧ s.lockedEnd 1 ≤ env.timestamp ∧
      (∃ s', withdraw exampleConfig s env 7 1 = .ok s' ∧ s'.idToOwner 1 = 0 ∧ s'.lockedAmounts 1 8 = 10 ^ 19) ∧
      (withdrawAll exampleConfig s env 1).failure = some (.error "NOT_OWNER") := by
  intro s env
  refine ⟨by decide +kernel, by decide +kernel, ?_, by decide +kernel⟩
  have hs : Accounted exampleConfig s := run_accounted (exampleEnv (100 * WEEK)) 7 (twoTokens (10 ^ 19)) exampleTokens_fresh
  obtain ⟨s', hs'⟩ := Res.failure_none (x := withdraw exampleConfig s env 7 1) (by decide +kernel)
  have hw := withdraw_withdrawn hs' hs
  refine ⟨s', hs', (hw.burned (by decide +kernel)).2, ?_⟩
  rw [hw.amount_eq (by decide)]
  decide +kernel

end SimContracts.Ve
