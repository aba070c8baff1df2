/-
Withdrawals. A withdrawal asks twice who calls. At its start the caller must be the owner of the NFT, approved for it or
an operator of the owner; when the derived amount comes to nothing the NFT is burned, and the burn, which clears the
approval through `approve`, lets only the owner and operators pass. Apart from that and from arithmetic that overflows,
everybody who may withdraw from a lock that is over can do so.

Results:
  run_accounted             what every run keeps: owners' lists, words, and the tokens held for the locks
  checkpointWith_over       the checkpoint of a lock that is over goes through when the global one does
  run_checkpoints_succeed   after a run whose checkpoints are in time, any number of global checkpoints go through
  withdraw_succeeds_iff     exactly when a withdrawal goes through
  withdraw_allowed          the test at the start decides it unless the burn refuses the caller
-/
import SimContracts.Ve.Derived
import SimContracts.Ve.Ownership

namespace SimContracts.Ve

open Solidity

variable {cfg : Config} {s s' s₁ s₂ : State} {env : Env}

/-! ## Derived amounts are words -/

theorem calculateDerivedAmount_word {current old new weight decimals derived : ℕ}
    (h : calculateDerivedAmount current old new weight decimals = .ok derived) : derived < 2 ^ 256 := by
  simp only [calculateDerivedAmount, fits_bind] at h
  obtain ⟨-, h⟩ := h
  obtain ⟨_, -, h⟩ := bind_ok.1 h
  obtain ⟨_, -, h⟩ := bind_ok.1 h
  obtain ⟨_, -, h⟩ := bind_ok.1 h
  obtain ⟨hlt, rfl⟩ := uadd_ok.1 h
  exact hlt

/-- every derived amount is a word -/
def Words (s : State) : Prop := ∀ id, s.lockedDerivedAmount id < 2 ^ 256

theorem Words.of_eq (hs : Words s) (h : s'.lockedDerivedAmount = s.lockedDerivedAmount) : Words s' := by
  intro id
  rw [h]
  exact hs id

theorem Words.write (hs : Words s) {id d : ℕ} (hd : d < 2 ^ 256)
    (h : s'.lockedDerivedAmount = Function.update s.lockedDerivedAmount id d) : Words s' := by
  intro i
  rw [h, Function.update_apply]
  split_ifs
  · exact hd
  · exact hs i

theorem depositFor_words {info : DepositInfo} (h : depositFor cfg s env info = .ok s') (hs : Words s) : Words s' := by
  obtain ⟨derived, s₁, hsteps⟩ := depositFor_steps h
  have hwritten : Words (written s info derived) := by
    by_cases hv : info.value ≠ 0
    · exact hs.write (calculateDerivedAmount_word (hsteps.computed hv)) (if_pos hv)
    · exact hs.of_eq (if_neg hv)
  have hchecked := (checkpointWith_locks hsteps.checked).1.derived
  have hpulled := (depositTokens_rebalanced hsteps.pulled).frame.locks.derived
  exact hwritten.of_eq (hpulled.trans hchecked)

theorem mergeTokens_words {src dst lockEnd e : ℕ} (tokens : List Address)
    (h : mergeTokens cfg env src dst lockEnd tokens s e = .ok s') : Words s → Words s' :=
  mergeTokens_rel (R := fun s s' => Words s → Words s') (fun _ hs => hs) (fun h h' hs => h' (h hs))
    (fun hround hs => depositFor_words hround.deposited (hs.of_eq rfl)) tokens h

/-- also what is left of the derived amount -/
theorem splitTokens_words {id newId percent lockEnd d d' : ℕ} (tokens : List Address)
    (h : splitTokens cfg env id newId percent lockEnd tokens s d = .ok (s', d')) :
    Words s ∧ d < 2 ^ 256 → Words s' ∧ d' < 2 ^ 256 :=
  splitTokens_rel (R := fun a b => Words a.1 ∧ a.2 < 2 ^ 256 → Words b.1 ∧ b.2 < 2 ^ 256) (fun _ hs => hs)
    (fun h h' hs => h' (h hs))
    (fun hround hs => ⟨depositFor_words hround.deposited (hs.1.of_eq rfl), calculateDerivedAmount_word hround.computed⟩)
    tokens h

theorem withdraw_words {token : Address} {id : ℕ} (h : withdraw cfg s env token id = .ok s') (hs : Words s) :
    Words s' := by
  obtain ⟨d, s₁, s₂, -, hd, hw⟩ := withdraw_computes h
  have hchecked := (checkpointWith_locks hw.checked).1.derived
  have hafter := (burnIfEmpty_reowned hw.burned).frame.trans (transferUnderlyingToken_rebalanced hw.paid).frame
  exact hs.write (calculateDerivedAmount_word hd) (hafter.locks.derived.trans hchecked)

theorem withdrawTokens_words {id : ℕ} (tokens : List Address) (h : withdrawTokens cfg env id tokens s = .ok s') :
    Words s → Words s' :=
  withdrawTokens_rel (R := fun s s' => Words s → Words s') (fun _ hs => hs) (fun h h' hs => h' (h hs)) withdraw_words
    tokens h

theorem exec_words {call : Call} (h : exec cfg s env call = .ok s') (hs : Words s) : Words s' := by
  cases call with
  | createLockFor token value d dst received =>
    obtain ⟨⟨_, id⟩, h1, ⟨⟩⟩ := bind_ok.1 h
    obtain ⟨unlockTime, s₁, hc⟩ := createLockFor_ok h1
    exact depositFor_words hc.deposited (hs.of_eq (mint_reowned hc.minted).frame.locks.derived)
  | createLock token value d received =>
    obtain ⟨⟨_, id⟩, h1, ⟨⟩⟩ := bind_ok.1 h
    obtain ⟨unlockTime, s₁, hc⟩ := createLockFor_ok h1
    exact depositFor_words hc.deposited (hs.of_eq (mint_reowned hc.minted).frame.locks.derived)
  | increaseAmount token id value => exact depositFor_words (increaseAmount_ok h).deposited hs
  | increaseUnlockTime id d =>
    obtain ⟨⟨_, power, date⟩, h1, ⟨⟩⟩ := bind_ok.1 h
    obtain ⟨unlockTime, hsteps⟩ := increaseUnlockTime_ok h1
    exact depositFor_words hsteps.deposited hs
  | merge src dst =>
    obtain ⟨s₁, s₂, hm⟩ := merge_ok h
    have hcleared := (checkpointWith_locks hm.cleared).1.derived
    have hburned := (burn_reowned hm.burned).frame.locks.derived
    exact (mergeTokens_words _ hm.moved hs).write (Nat.two_pow_pos 256) (hburned.trans hcleared)
  | split id percent received =>
    obtain ⟨s₁, s₂, derived, hsp⟩ := split_ok h
    have hminted : Words s₁ := hs.of_eq (mint_reowned hsp.minted).frame.locks.derived
    obtain ⟨hmoved, hderived⟩ := splitTokens_words _ hsp.moved ⟨hminted, hs id⟩
    exact hmoved.write hderived (checkpointWith_locks hsp.checked).1.derived
  | withdraw token id => exact withdraw_words h hs
  | withdrawAll id => exact withdrawTokens_words _ h hs
  | checkpoint =>
    have hc : checkpointWith s env ⟨0, 0, 0, 0, 0⟩ = .ok s' := h
    exact hs.of_eq (checkpointWith_locks hc).1.derived
  | _ => exact hs.of_eq (exec_frame rfl h).locks.derived

/-! ## Id 0 -/

/-- id 0 has no lock: it is never an NFT -/
def NoZero (s : State) : Prop := s.lockedEnd 0 = 0 ∧ ∀ token, s.lockedAmounts 0 token = 0

theorem Flow.noZero {src dst lockEnd : ℕ} (h : Flow s s' src dst lockEnd) (hsrc : src ≠ 0) (hdst : dst ≠ 0)
    (hs : NoZero s) : NoZero s' := by
  constructor
  · exact (h.ends 0 hdst.symm).trans hs.1
  · intro token
    exact (congrFun (h.others 0 hsrc.symm hdst.symm) token).trans (hs.2 token)

theorem PaidOut.noZero {id now : ℕ} (h : PaidOut now s s' id) (hs : NoZero s) : NoZero s' := by
  by_cases hid : id = 0
  · subst hid
    constructor
    · exact h.idEnd.elim (fun heq => heq.trans hs.1) fun h0 => h0
    · intro token
      exact (h.amounts token).elim (fun heq => heq.trans (hs.2 token)) fun h0 => h0
  · constructor
    · exact (h.ends 0 (Ne.symm hid)).trans hs.1
    · intro token
      exact (congrFun (h.others 0 (Ne.symm hid)) token).trans (hs.2 token)

theorem exec_noZero {call : Call} (hv : Vault cfg s) (h : exec cfg s env call = .ok s') (hs : NoZero s) : NoZero s' := by
  have heffect := (exec_effect hv h).2
  -- what is not over yet has an end, so it is not id 0
  have hlive : ∀ {id}, env.timestamp < s.lockedEnd id → id ≠ 0 := by
    rintro id hlt rfl
    rw [hs.1] at hlt
    exact Nat.not_lt_zero _ hlt
  have hnew : ∀ {token value unlock}, s'.lockedAmounts = update2 s.lockedAmounts (s.tokenId + 1) token value →
      s'.lockedEnd = Function.update s.lockedEnd (s.tokenId + 1) unlock → NoZero s' := by
    intro token value unlock hamounts hends
    have hne : 0 ≠ s.tokenId + 1 := by omega
    refine ⟨?_, fun t => ?_⟩
    · rw [hends, Function.update_of_ne hne]
      exact hs.1
    · rw [hamounts, update2_of_ne hne]
      exact hs.2 t
  cases call with
  | createLockFor token value d dst received =>
    obtain ⟨-, -, hamounts, unlock, -, hends⟩ := heffect
    exact hnew hamounts hends
  | createLock token value d received =>
    obtain ⟨-, -, hamounts, unlock, -, hends⟩ := heffect
    exact hnew hamounts hends
  | increaseAmount token id value =>
    have hne := hlive (increaseAmount_ok h).live
    obtain ⟨-, hamounts, hends⟩ := heffect
    refine ⟨(congrFun hends 0).trans hs.1, fun t => ?_⟩
    rw [hamounts, update2_of_ne hne.symm]
    exact hs.2 t
  | increaseUnlockTime id d =>
    obtain ⟨⟨_, power, date⟩, h1, ⟨⟩⟩ := bind_ok.1 h
    obtain ⟨unlockTime, hsteps⟩ := increaseUnlockTime_ok h1
    have hne := hlive hsteps.live
    obtain ⟨hamounts, unlock, -, -, hends⟩ := heffect
    refine ⟨?_, fun t => ?_⟩
    · rw [hends, Function.update_of_ne hne.symm]
      exact hs.1
    · rw [hamounts]
      exact hs.2 t
  | merge src dst =>
    obtain ⟨-, hsrc, hdst, s₁, hflow, -, hamounts, hends⟩ := heffect
    obtain ⟨hend, hzero⟩ := hflow.noZero (hlive hsrc) (hlive hdst) hs
    refine ⟨?_, fun t => ?_⟩
    · rw [hends, Function.update_of_ne (hlive hsrc).symm]
      exact hend
    · rw [hamounts]
      exact hzero t
  | split id percent received =>
    obtain ⟨-, hlt, hflow⟩ := heffect
    exact hflow.noZero (hlive hlt) (Nat.succ_ne_zero _) hs
  | withdraw token id => exact heffect.2.noZero hs
  | withdrawAll id => exact heffect.2.noZero hs
  | _ =>
    obtain ⟨hamounts, hends⟩ := heffect
    refine ⟨(congrFun hends 0).trans hs.1, fun t => ?_⟩
    rw [hamounts]
    exact hs.2 t

/-! ## What every run keeps -/

/-- the owners' lists are exact, derived amounts are words, only listed tokens are locked, and the contract holds them -/
structure Accounted (cfg : Config) (s : State) : Prop where
  vault : Vault cfg s
  owners : Listed s
  zero : NoZero s
  words : Words s
  backed : ∀ token, locked s token ≤ held cfg s token
  listed : ∀ id token, s.lockedAmounts id token ≠ 0 → token ∈ s.tokens
  valid : ∀ token, s.isValidToken token → token ∈ s.tokens

theorem Accounted.id_ne (hs : Accounted cfg s) {id : ℕ} {token : Address} (h : 0 < s.lockedAmounts id token) : id ≠ 0 := by
  rintro rfl
  rw [hs.zero.2] at h
  exact lt_irrefl _ h

/-- what is locked in an NFT is held -/
theorem Accounted.held_ge (hs : Accounted cfg s) (id : ℕ) (token : Address) :
    s.lockedAmounts id token ≤ held cfg s token := by
  have hsum := hs.vault.sum_le_locked token {id}
  rw [Finset.sum_singleton] at hsum
  exact hsum.trans (hs.backed token)

theorem exec_accounted {call : Call} (h : exec cfg s env call = .ok s') (hs : Accounted cfg s) : Accounted cfg s' := by
  obtain ⟨hlists, heffect⟩ := exec_effect hs.vault h
  have hcovers := exec_surplus h hs.vault
  have hvalid : ∀ token, s.isValidToken token → token ∈ s'.tokens :=
    fun token ht => hlists.listed _ (hs.valid token ht)
  refine ⟨hcovers.vault, (exec_listed h hs.owners).1, exec_noZero hs.vault h hs.zero, exec_words h hs.words,
    fun token => ?_, fun id token hne => ?_, fun token ht => (hlists.valid token ht).elim (hvalid token) id⟩
  · have hle := hcovers.le token
    have hbacked := hs.backed token
    omega
  · rcases heffect.listed hne with hv | ⟨i, hi⟩
    · exact hvalid token hv
    · exact hlists.listed _ (hs.listed i token hi)

theorem deploy_accounted (env : Env) {erc20 : Address → ERC20} (shady : Address)
    (h : ∀ token spender, (erc20 token).allowance cfg.self spender = 0) : Accounted cfg (deploy env erc20 shady) := by
  have ho : Orderly cfg 0 (deploy env erc20 shady) := deploy_orderly env shady h
  refine ⟨ho.vault, deploy_listed env erc20 shady, ⟨rfl, fun _ => rfl⟩, fun _ => Nat.two_pow_pos 256, fun token => ?_,
    ho.listed, ho.valid⟩
  rw [deploy_locked]
  exact Nat.zero_le _

theorem run_accounted (env₀ : Env) {erc20 : Address → ERC20} (shady : Address) (calls : List (Env × Call))
    (hfresh : ∀ token spender, (erc20 token).allowance cfg.self spender = 0) :
    Accounted cfg (run (execIn cfg) (deploy env₀ erc20 shady) calls) :=
  run_inv (execIn cfg) (P := fun _ _ => True) (fun _ _ _ hs _ h => exec_accounted h hs) _ calls
    (deploy_accounted env₀ shady hfresh) (along_true _ _ _)

/-! ## Checkpoints of locks that are over -/

theorem fillWeeks_slope {sc : ℕ → ℤ} {blockSlope rounds : ℕ} {f f' : Fill} (hrounds : 0 < rounds)
    (h : fillWeeks sc env blockSlope rounds f = .ok f') : IsInt128 f'.lastPoint.slope := by
  have hstep : ∀ {f g : Fill}, fillWeek sc env.timestamp blockSlope f = .ok g → IsInt128 g.lastPoint.slope := by
    intro f g hg
    simp only [fillWeek, uadd_bind, usub_bind, i128_bind, umul_bind, pure_ok] at hg
    obtain ⟨-, -, -, -, hslope, -, -, -, -, rfl⟩ := hg
    exact isInt128_positive hslope
  induction rounds generalizing f with
  | zero => exact absurd hrounds (lt_irrefl _)
  | succ rounds ih =>
    rw [fillWeeks] at h
    obtain ⟨g, hg, h⟩ := bind_ok.1 h
    have hslope := hstep hg
    split_ifs at h
    · cases h
      exact hslope
    · rcases Nat.eq_zero_or_pos rounds with rfl | hpos
      · cases h
        exact hslope
      · exact ih hpos h

/-- the fill ends in a point that takes a line of zero without change -/
theorem addLock_zero {f : Fill} (h : fillHistory s env = .ok f) : addLock f.lastPoint (0, 0) (0, 0) = .ok f.lastPoint := by
  obtain ⟨blockSlope, -, hweeks⟩ := bind_ok.1 h
  obtain ⟨⟨hbias, hslope⟩, hbiasFits⟩ := fillWeeks_nonneg (by decide) hweeks
  have hslopeFits := fillWeeks_slope (by decide) hweeks
  have hzero : IsInt128 0 := by decide
  simp only [addLock, sub_zero, i128_bind, add_zero, pure_ok]
  refine ⟨hzero, hslopeFits, hzero, hbiasFits, ?_⟩
  rw [positiveInt128_of_nonneg hbias, positiveInt128_of_nonneg hslope]

theorem lockLine_over {now d lockEnd : ℕ} (h : lockEnd ≤ now) : lockLine now d lockEnd = .ok (0, 0) :=
  if_neg fun hlive => absurd hlive.1 (not_lt.2 h)

/-- what the global checkpoint leaves -/
theorem checkpoint_ok : checkpoint s env = .ok s' ↔ ∃ f, fillHistory s env = .ok f ∧
    s' = { s with epoch := f.epoch, pointHistory := Function.update f.pointHistory f.epoch f.lastPoint } := by
  constructor
  · intro h
    obtain ⟨f, hf, h⟩ := bind_ok.1 h
    exact ⟨f, hf, (pure_ok.1 h).symm⟩
  · rintro ⟨f, hf, rfl⟩
    exact bind_ok.2 ⟨f, hf, rfl⟩

/-- **The checkpoint of a lock that is over** goes through when the global one does and there is room for a point of the
NFT; it writes the same global history and schedules nothing. -/
theorem checkpointWith_over {info : CheckpointInfo} (hid : info.tokenId ≠ 0) (hold : info.oldEnd ≤ env.timestamp)
    (hnew : info.newEnd ≤ env.timestamp) : checkpointWith s env info = .ok s' ↔
      ∃ f, fillHistory s env = .ok f ∧ s.userPointEpoch info.tokenId + 1 < USER_POINTS ∧ s' = { s with
        epoch := f.epoch
        pointHistory := Function.update f.pointHistory f.epoch f.lastPoint
        userPointEpoch := Function.update s.userPointEpoch info.tokenId (s.userPointEpoch info.tokenId + 1)
        userPointHistory := update2 s.userPointHistory info.tokenId (s.userPointEpoch info.tokenId + 1)
          { slope := 0, bias := 0, ts := env.timestamp, blk := env.number } } := by
  have hreschedule : rescheduleOld s.slopeChanges env.timestamp info 0 0 = .ok s.slopeChanges :=
    if_neg (not_lt.2 hold)
  have hschedule : ∀ d, scheduleNew s.slopeChanges env.timestamp info 0 d = .ok s.slopeChanges :=
    fun d => if_neg fun hlive => absurd hlive.1 (not_lt.2 hnew)
  rw [checkpointWith, if_neg hid, checkpointLock, lockLine_over hold, lockLine_over hnew, ok_bind, ok_bind]
  dsimp only
  constructor
  · intro h
    obtain ⟨f, hf, h⟩ := bind_ok.1 h
    rw [addLock_zero hf, ok_bind, hreschedule, ok_bind, hschedule, ok_bind] at h
    simp only [uadd_bind, inBounds_bind, pure_ok] at h
    obtain ⟨-, hroom, rfl⟩ := h
    exact ⟨f, hf, hroom, rfl⟩
  · rintro ⟨f, hf, hroom, rfl⟩
    refine bind_ok.2 ⟨f, hf, ?_⟩
    rw [addLock_zero hf, ok_bind, hreschedule, ok_bind, hschedule, ok_bind]
    simp only [uadd_bind, inBounds_bind]
    have hword : USER_POINTS < 2 ^ 256 := by decide
    exact ⟨hroom.trans hword, hroom, rfl⟩

theorem checkpointWith_over_succeeds {info : CheckpointInfo} (hid : info.tokenId ≠ 0) (hold : info.oldEnd ≤ env.timestamp)
    (hnew : info.newEnd ≤ env.timestamp) (hroom : s.userPointEpoch info.tokenId + 1 < USER_POINTS)
    (hc : Succeeds (checkpoint s env)) : Succeeds (checkpointWith s env info) := by
  obtain ⟨sc, hsc⟩ := hc
  obtain ⟨f, hf, -⟩ := checkpoint_ok.1 hsc
  exact ⟨_, (checkpointWith_over hid hold hnew).2 ⟨f, hf, hroom, rfl⟩⟩

/-- so many global checkpoints in one block -/
def checkpoints (env : Env) : ℕ → State → Res State
  | 0, s => .ok s
  | n + 1, s => do
    let s ← checkpoint s env
    checkpoints env n s

theorem fillWeeks_epoch_le {sc : ℕ → ℤ} {blockSlope rounds : ℕ} {f f' : Fill}
    (h : fillWeeks sc env blockSlope rounds f = .ok f') : f'.epoch ≤ f.epoch + rounds := by
  induction rounds generalizing f with
  | zero =>
    cases h
    exact le_rfl
  | succ rounds ih =>
    rw [fillWeeks] at h
    obtain ⟨g, hg, h⟩ := bind_ok.1 h
    have hepoch := (fillWeek_ok hg).epoch
    split_ifs at h
    · cases h
      show g.epoch ≤ _
      omega
    · have hle := ih h
      dsimp only at hle
      omega

/-- **In time nothing overflows.** In a state whose supply is in order and whose amounts do not wrap, any number of global
checkpoints go through in a block in time. -/
theorem checkpoints_succeed {n : ℕ} (hg : Good s) (hw : NoWrap s) (ht : Timely s env)
    (hblk : (lastPoint s).blk ≤ env.number) (hnow : env.timestamp < 2 ^ 127) (hnum : env.number < 2 ^ 128)
    (hepoch : s.epoch + 255 * n < 2 ^ 256) : Succeeds (checkpoints env n s) := by
  induction n generalizing s with
  | zero => exact succeeds_ok s
  | succ n ih =>
    have hfirst : s.epoch + 255 ≤ s.epoch + 255 * (n + 1) := by omega
    obtain ⟨f, hf, -⟩ := fillHistory_succeeds hg.supply hw ht.ordered hblk hnow hnum (hfirst.trans_lt hepoch)
    obtain ⟨s₁, h₁⟩ : Succeeds (checkpoint s env) := ⟨_, checkpoint_ok.2 ⟨f, hf, rfl⟩⟩
    obtain ⟨hfades, hgood⟩ := checkpoint_good h₁
    obtain ⟨hg₁, hts⟩ := hgood (hfades.noWrap hw) ht hg
    obtain ⟨f₁, hfills⟩ := checkpointWith_fills h₁
    have hepoch₁ : s₁.epoch ≤ s.epoch + 255 := by
      obtain ⟨blockSlope, -, hweeks⟩ := bind_ok.1 hfills.filled
      rw [hfills.epoch]
      exact fillWeeks_epoch_le hweeks
    have hrest : s₁.epoch + 255 * n ≤ s.epoch + 255 * (n + 1) := by omega
    exact succeeds_bind.2 ⟨s₁, h₁, ih hg₁ (hfades.noWrap hw) (timely_after hts) (hfills.now ht).2.le (hrest.trans_lt hepoch)⟩

/-- so after every run in the order of blocks whose checkpoints are in time -/
theorem run_checkpoints_succeed {env₀ : Env} {erc20 : Address → ERC20} {shady : Address} {calls : List (Env × Call)} {n : ℕ}
    (hfresh : ∀ token spender, (erc20 token).allowance cfg.self spender = 0) (hb : InBlocks env₀ calls env)
    (hcalls : AlongOk (execIn cfg) InTime (deploy env₀ erc20 shady) calls)
    (hw : NoWrap (run (execIn cfg) (deploy env₀ erc20 shady) calls))
    (ht : Timely (run (execIn cfg) (deploy env₀ erc20 shady) calls) env) (hnow : env.timestamp < 2 ^ 127)
    (hnum : env.number < 2 ^ 128)
    (hepoch : (run (execIn cfg) (deploy env₀ erc20 shady) calls).epoch + 255 * n < 2 ^ 256) :
    Succeeds (checkpoints env n (run (execIn cfg) (deploy env₀ erc20 shady) calls)) := by
  have hclock := (run_clocked hb shady hfresh).global
  exact checkpoints_succeed (run_good env₀ erc20 shady hcalls hw) hw ht hclock.last.blk hnow hnum hepoch

/-! ## Burning -/

/-- what the burn asks of its caller: to be the owner, or an operator of the owner, of an NFT that exists -/
def MayBurn (s : State) (env : Env) (id : ℕ) : Prop :=
  s.idToOwner id ≠ 0 ∧ (s.idToOwner id = env.sender ∨ s.ownerToOperators (s.idToOwner id) env.sender)

theorem removeTokenFrom_succeeds {id : ℕ} (hs : Listed s) (hid : s.idToOwner id ≠ 0) :
    Succeeds (removeTokenFrom s (s.idToOwner id) id) := by
  have hcount : 1 ≤ s.ownerToNFTokenCount (s.idToOwner id) := Nat.one_le_of_lt (hs.holdings.place id hid).1
  refine succeeds_require.2 ⟨rfl, Succeeds.bind ?_ fun sa ha => ?_⟩
  · unfold removeTokenFromOwnerList usub
    dsimp only
    rw [if_pos hcount, ok_bind]
    split_ifs
    · exact succeeds_ok _
    · exact succeeds_ok _
  · rw [removeTokenFromOwnerList_count ha]
    unfold usub
    rw [if_pos hcount, ok_bind]
    exact succeeds_pure _

theorem burn_succeeds_iff {id : ℕ} (hs : Listed s) : Succeeds (burn s env id) ↔ MayBurn s env id := by
  unfold burn approve MayBurn
  simp only [succeeds_bind, require_bind, pure_ok]
  constructor
  · rintro ⟨_, ⟨howner, -, hcaller, rfl⟩, -⟩
    exact ⟨howner, hcaller⟩
  · rintro ⟨howner, hcaller⟩
    have hcleared : Listed { s with idToApprovals := Function.update s.idToApprovals id 0 } := ⟨hs.holdings, hs.fresh⟩
    exact ⟨_, ⟨howner, howner.symm, hcaller, rfl⟩, removeTokenFrom_succeeds hcleared howner⟩

/-! ## What a withdrawal computes -/

theorem mulDivUp_bind {β : Type} {b : β} {x y d : ℕ} {f : ℕ → Res β} : (mulDivUp x y d >>= f) = .ok b ↔
    (d ≠ 0 ∧ x * y < 2 ^ 256) ∧ f (divUp (x * y) d) = .ok b := by
  unfold mulDivUp divUp
  by_cases h : d ≠ 0 ∧ x * y < 2 ^ 256
  · rw [if_pos h, ok_bind]
    exact ⟨fun hf => ⟨h, hf⟩, fun hf => hf.2⟩
  · rw [if_neg h]
    exact ⟨nofun, fun hf => absurd hf.1 h⟩

theorem mulDivDown_zero {y d : ℕ} (hd : d ≠ 0) : mulDivDown 0 y d = .ok 0 := by
  simp [mulDivDown, hd]

/-- what an amount takes off is computed in words -/
structure InWords (derived amount weight decimals : ℕ) : Prop where
  unit : 10 ^ decimals < 2 ^ 256
  units : derived ≠ 0 → amount * 10 ^ 18 < 2 ^ 256
  product : derived ≠ 0 → divUp (amount * 10 ^ 18) (10 ^ decimals) * weight < 2 ^ 256

variable {token : Address} {id : ℕ}

theorem subtractDerived_ok {amount old weight decimals r : ℕ} (hamount : 0 < amount) :
    subtractDerived amount old weight (10 ^ decimals) = .ok r ↔
      (old ≠ 0 → amount * 10 ^ 18 < 2 ^ 256 ∧ divUp (amount * 10 ^ 18) (10 ^ decimals) * weight < 2 ^ 256) ∧
        r = old - contributionUp amount weight decimals := by
  unfold subtractDerived
  by_cases hold : old = 0
  · rw [if_neg fun h => h.1 hold, hold, Nat.zero_sub]
    constructor
    · rintro ⟨⟩
      exact ⟨fun h => absurd rfl h, rfl⟩
    · rintro ⟨-, rfl⟩
      rfl
  · have hunit : 10 ^ decimals ≠ 0 := pow_ne_zero _ (by decide)
    have hweight : WEIGHT_DENOMINATOR ≠ 0 := by decide
    have hsub : ∀ up, (if up < old then old - up else 0) = old - up := by
      intro up
      split_ifs <;> omega
    rw [if_pos ⟨hold, hamount.ne'⟩, divWadUp, mulDivUp_bind, mulDivUp_bind, hsub, pure_ok]
    constructor
    · rintro ⟨⟨-, h1⟩, ⟨-, h2⟩, rfl⟩
      exact ⟨fun _ => ⟨h1, h2⟩, rfl⟩
    · rintro ⟨h, rfl⟩
      exact ⟨⟨hunit, (h hold).1⟩, ⟨hweight, (h hold).2⟩, rfl⟩

/-- **The derived amount left by a withdrawal.** -/
theorem derivedLeft_ok {amount old weight decimals derived : ℕ} (hamount : 0 < amount) (hold : old < 2 ^ 256) :
    calculateDerivedAmount amount old 0 weight decimals = .ok derived ↔
      InWords old amount weight decimals ∧ derived = old - contributionUp amount weight decimals := by
  have hunit : 10 ^ decimals ≠ 0 := pow_ne_zero _ (by decide)
  simp only [calculateDerivedAmount, fits_bind, divWadDown, mulDivDown_zero hunit,
    mulDivDown_zero (show WEIGHT_DENOMINATOR ≠ 0 by decide), ok_bind]
  constructor
  · rintro ⟨hfits, h⟩
    obtain ⟨rest, hrest, h⟩ := bind_ok.1 h
    obtain ⟨-, rfl⟩ := uadd_ok.1 h
    obtain ⟨hwords, rfl⟩ := (subtractDerived_ok hamount).1 hrest
    exact ⟨⟨hfits, fun h => (hwords h).1, fun h => (hwords h).2⟩, Nat.add_zero _⟩
  · rintro ⟨hwords, rfl⟩
    refine ⟨hwords.unit, bind_ok.2 ⟨_, (subtractDerived_ok hamount).2 ⟨fun h => ⟨hwords.units h, hwords.product h⟩, rfl⟩, ?_⟩⟩
    rw [uadd_ok, Nat.add_zero]
    exact ⟨(Nat.sub_le _ _).trans_lt hold, rfl⟩

/-! ## When a withdrawal goes through -/

/-- what the locked amount of a token takes off the derived amount of its NFT -/
def takenOff (cfg : Config) (s : State) (id : ℕ) (token : Address) : ℕ :=
  contributionUp (s.lockedAmounts id token) (s.tokenWeights token) (cfg.decimals token)

/-- the arithmetic of a withdrawal: the derived amount in words, room for a point, and a global checkpoint -/
structure Computes (cfg : Config) (s : State) (env : Env) (token : Address) (id : ℕ) : Prop where
  words : InWords (s.lockedDerivedAmount id) (s.lockedAmounts id token) (s.tokenWeights token) (cfg.decimals token)
  room : s.userPointEpoch id + 1 < USER_POINTS
  checkpoint : Succeeds (checkpoint s env)

theorem SameOwners.mayBurn (h : SameOwners s s') : MayBurn s' env id ↔ MayBurn s env id := by
  rw [MayBurn, MayBurn, h.owner, h.operators]

theorem transferUnderlyingToken_congr {recipient : Address} {amount : ℕ} (h : s'.erc20 = s.erc20) :
    Succeeds (transferUnderlyingToken cfg s' token recipient amount) ↔
      Succeeds (transferUnderlyingToken cfg s token recipient amount) := by
  unfold transferUnderlyingToken
  simp only [succeeds_bind, succeeds_pure, and_true, h]

/-- **When a withdrawal goes through.** -/
theorem withdraw_succeeds_iff (hs : Accounted cfg s) (hamount : 0 < s.lockedAmounts id token) :
    Succeeds (withdraw cfg s env token id) ↔ isApprovedOrOwner s env.sender id ∧ s.lockedEnd id ≤ env.timestamp ∧
      Computes cfg s env token id ∧ (s.lockedDerivedAmount id ≤ takenOff cfg s id token → MayBurn s env id) ∧
      Succeeds (transferUnderlyingToken cfg s token env.sender (s.lockedAmounts id token)) := by
  have hid := hs.id_ne hamount
  -- the state before the burn has the owners and tokens of `s`
  have howners : ∀ {ends derived amounts info s₁}, checkpointWith { s with
      lockedEnd := ends, lockedDerivedAmount := derived, lockedAmounts := amounts } env info = .ok s₁ →
      SameOwners s s₁ ∧ s₁.erc20 = s.erc20 := by
    intro ends derived amounts info s₁ h
    exact ⟨((relocked_lock s _ _ _).trans (checkpointWith_relocked h)).owners, (checkpointWith_tokens h).erc20⟩
  constructor
  · rintro ⟨s', h⟩
    obtain ⟨d, s₁, s₂, hallowed, hd, hw⟩ := withdraw_computes h
    obtain ⟨hwords, rfl⟩ := (derivedLeft_ok hamount (hs.words id)).1 hd
    have hexpired := hw.expired
    obtain ⟨hsame, herc20⟩ := howners hw.checked
    obtain ⟨f, hf, hroom, -⟩ := (checkpointWith_over hid hexpired ((keptEnd_le _ _).trans hexpired)).1 hw.checked
    refine ⟨hallowed, hexpired, ⟨hwords, hroom, _, checkpoint_ok.2 ⟨f, hf, rfl⟩⟩, fun hle => ?_, ?_⟩
    · have hburned := hw.burned
      rw [burnIfEmpty, if_pos] at hburned
      swap
      · exact Nat.sub_eq_zero_of_le hle
      exact hsame.mayBurn.1 ((burn_succeeds_iff (hsame.listed hs.owners)).1 ⟨_, hburned⟩)
    · exact (transferUnderlyingToken_congr ((burnIfEmpty_reowned hw.burned).tokens.erc20.trans herc20)).1 ⟨_, hw.paid⟩
  · rintro ⟨hallowed, hexpired, hcomputes, hburn, hpaid⟩
    have hend := (keptEnd_le (s.lockedDerivedAmount id - takenOff cfg s id token) (s.lockedEnd id)).trans hexpired
    unfold withdraw
    simp only [succeeds_require]
    refine ⟨hallowed, hexpired, hamount, succeeds_bind.2
      ⟨_, (derivedLeft_ok hamount (hs.words id)).2 ⟨hcomputes.words, rfl⟩, ?_⟩⟩
    refine Succeeds.bind (checkpointWith_over_succeeds hid hexpired hend hcomputes.room ?_) fun s₁ h₁ => ?_
    · obtain ⟨sc, hsc⟩ := hcomputes.checkpoint
      obtain ⟨f, hf, -⟩ := checkpoint_ok.1 hsc
      exact ⟨_, checkpoint_ok.2 ⟨f, hf, rfl⟩⟩
    · obtain ⟨hsame, herc20⟩ := howners h₁
      refine Succeeds.bind ?_ fun s₂ h₂ => ?_
      · unfold burnIfEmpty
        split_ifs with h0
        · rw [burn_succeeds_iff (hsame.listed hs.owners), hsame.mayBurn]
          exact hburn (Nat.sub_eq_zero_iff_le.1 h0)
        · exact succeeds_ok _
      · exact (transferUnderlyingToken_congr ((burnIfEmpty_reowned h₂).tokens.erc20.trans herc20)).2 hpaid

/-- **Who may withdraw.** In every state a run reaches, let an NFT have some amount of a token locked that can be paid out.
Then a withdrawal goes through exactly for callers approved at the end of the lock or later, unless one that is approved
then has an overflow in its arithmetic, or would burn the NFT and is no owner or operator. -/
theorem withdraw_allowed (cfg : Config) (env₀ : Env) (erc20 : Address → ERC20) (shady : Address) (calls : List (Env × Call))
    (hfresh : ∀ token spender, (erc20 token).allowance cfg.self spender = 0) (env : Env) (token : Address) (id : ℕ) :
    let s := run (execIn cfg) (deploy env₀ erc20 shady) calls
    0 < s.lockedAmounts id token →
    Succeeds (transferUnderlyingToken cfg s token env.sender (s.lockedAmounts id token)) →
    ((Succeeds (withdraw cfg s env token id) ↔ isApprovedOrOwner s env.sender id ∧ s.lockedEnd id ≤ env.timestamp) ↔
      (isApprovedOrOwner s env.sender id → s.lockedEnd id ≤ env.timestamp → Computes cfg s env token id ∧
        (s.lockedDerivedAmount id ≤ takenOff cfg s id token → MayBurn s env id))) := by
  intro s hamount hpaid
  have hs : Accounted cfg s := run_accounted env₀ shady calls hfresh
  rw [withdraw_succeeds_iff hs hamount]
  constructor
  · intro h hallowed hexpired
    obtain ⟨-, -, hcomputes, hburn, -⟩ := h.2 ⟨hallowed, hexpired⟩
    exact ⟨hcomputes, hburn⟩
  · intro h
    refine ⟨fun hw => ⟨hw.1, hw.2.1⟩, fun ⟨hallowed, hexpired⟩ => ?_⟩
    obtain ⟨hcomputes, hburn⟩ := h hallowed hexpired
    exact ⟨hallowed, hexpired, hcomputes, hburn, hpaid⟩

/-- the owner of a lock that is over -/
theorem withdraw_allowed_oneLock :
    let s := run (execIn exampleConfig) exampleDeploy [oneLock]
    let env := exampleEnv (110 * WEEK)
    Succeeds (withdraw exampleConfig s env 7 1) ↔ isApprovedOrOwner s env.sender 1 ∧ s.lockedEnd 1 ≤ env.timestamp := by
  intro s env
  have hcomputes : Computes exampleConfig s env 7 1 :=
    ⟨⟨by decide, fun _ => by decide +kernel, fun _ => by decide +kernel⟩, by decide +kernel,
      Res.failure_none (by decide +kernel)⟩
  refine (withdraw_allowed exampleConfig (exampleEnv (100 * WEEK)) exampleTokens 7 [oneLock] exampleTokens_fresh env 7 1
    (by decide +kernel) (Res.failure_none (by decide +kernel))).2 fun _ _ => ⟨hcomputes, fun _ => ?_⟩
  exact ⟨by decide +kernel, .inl (by decide +kernel)⟩

/-- Account 1 approves account 2 for its NFT. After the end of the lock account 2 may withdraw, but the withdrawal burns
the NFT, and `approve` refuses account 2. -/
theorem approved_refused :
    let s := run (execIn exampleConfig) exampleDeploy [oneLock, (exampleEnv (101 * WEEK), .approve 2 1)]
    let env : Env := { exampleEnv (110 * WEEK) with sender := 2 }
    0 < s.lockedAmounts 1 7 ∧
      Succeeds (transferUnderlyingToken exampleConfig s 7 env.sender (s.lockedAmounts 1 7)) ∧
      (withdraw exampleConfig s env 7 1).failure = some (.error "NOT_OWNER") ∧
      ¬ (Succeeds (withdraw exampleConfig s env 7 1) ↔
        isApprovedOrOwner s env.sender 1 ∧ s.lockedEnd 1 ≤ env.timestamp) := by
  intro s env
  have hfailure : (withdraw exampleConfig s env 7 1).failure = some (.error "NOT_OWNER") := by decide +kernel
  refine ⟨by decide +kernel, Res.failure_none (by decide +kernel), hfailure, fun h => ?_⟩
  obtain ⟨s', hs'⟩ := h.2 (by decide +kernel)
  rw [hs'] at hfailure
  cases hfailure

end SimContracts.Ve
