/-
The distributor can pay. The tokens of all weeks together are at most what came in, and what came in is in the distributor
until it is paid: `tokenLastBalance` covers what the weeks hold and is itself covered by the token balance. So everything that
is claimable, by all NFTs together, is there, and a claim whose amount can be computed is paid.

A token checkpoint made exactly at a week boundary distributes the same tokens twice (`checkpointToken_doubles`); the results
are about runs without one.

Results:
  claims_covered   all NFTs together can claim at most the recorded balance, which the token balance covers
  claim_pays       a claim pays the owner what the view shows
-/
import SimContracts.VeDistributor.Schedule
import SimContracts.VeDistributor.Tokens

namespace SimContracts.VeDistributor

open Solidity Ve

variable {cfg : Config} {self : Address} {s s' : System} {d d' : Dist} {ve' : Ve.State} {env : Env}

/-! ## The tokens of the weeks -/

/-- what portions come to -/
def amounts (ps : List Portion) : ℕ := (ps.map (·.amount)).sum

theorem amounts_append (ps qs : List Portion) : amounts (ps ++ qs) = amounts ps + amounts qs := by
  rw [amounts, List.map_append, List.sum_append, amounts, amounts]

/-- only weeks that the array has hold tokens -/
def InArray (tokensPerWeek : ℕ → ℕ) : Prop := ∀ w, w ∉ Finset.range WEEKS_SIZE → tokensPerWeek w = 0

theorem spreadTokens_inArray {now D since rounds t week : ℕ} {m m' : ℕ → ℕ}
    (h : spreadTokens now D since rounds t week m = .ok m') (hm : InArray m) : InArray m' := by
  have hadd : ∀ {week amount : ℕ} {m m' : ℕ → ℕ}, addTokens m week amount = .ok m' → InArray m → InArray m' := by
    intro week amount m m' h hm w hw
    simp only [addTokens, inBounds_bind, uadd_bind, pure_ok] at h
    obtain ⟨hweek, -, rfl⟩ := h
    rw [Function.update_of_ne, hm w hw]
    rintro rfl
    exact hw (Finset.mem_range.2 hweek)
  induction rounds generalizing t week m with
  | zero =>
    cases h
    exact hm
  | succ rounds ih =>
    simp only [spreadTokens, uadd_bind] at h
    obtain ⟨-, h⟩ := h
    split_ifs at h
    · obtain ⟨amount, -, h⟩ := bind_ok.1 h
      exact hadd h hm
    · obtain ⟨amount, -, h⟩ := bind_ok.1 h
      obtain ⟨m₁, h1, h⟩ := bind_ok.1 h
      exact ih h (hadd h1 hm)

/-- the pieces of a checkpoint away from a boundary are at most the whole, however long the last one is ago -/
theorem spreadSum_le_whole {now last D : ℕ} (hle : last ≤ now) (hnow : now % WEEK ≠ 0) :
    spreadSum now D (now - last) 20 last (last / WEEK * WEEK) ≤ D := by
  have hweek : last / WEEK * WEEK % WEEK = 0 := Nat.mul_mod_left _ _
  have hlt : last < last / WEEK * WEEK + WEEK := Nat.lt_div_mul_add week_pos
  rcases hle.lt_or_eq with hgt | rfl
  · have hsince : 0 < now - last := Nat.sub_pos_of_lt hgt
    exact Nat.le_of_mul_le_mul_right (spreadSum_le hsince hnow 20 last _ hweek hlt hgt) hsince
  · rw [spreadSum, if_pos hlt, portion_of_le le_rfl]

/-! ## The books -/

/-- the weeks hold what is recorded as arrived and not paid, and the distributor holds what is recorded; `pending` was
transferred but is not yet taken off the record -/
structure Funded (account : Address) (s : System) (pending : ℕ) : Prop where
  inArray : InArray s.dist.tokensPerWeek
  weeks : totalTokens s.dist.tokensPerWeek + pending ≤ s.dist.tokenLastBalance + amounts s.paid
  held : s.dist.tokenLastBalance ≤ s.rewardToken.balanceOf account + pending

/-- a step that neither distributes nor pays -/
theorem Funded.congr {pending : ℕ} (h : Funded self s pending) (htokens : s'.dist.tokensPerWeek = s.dist.tokensPerWeek)
    (hlast : s'.dist.tokenLastBalance = s.dist.tokenLastBalance) (hpaid : s'.paid = s.paid)
    (hbalance : s.rewardToken.balanceOf self ≤ s'.rewardToken.balanceOf self) : Funded self s' pending := by
  refine ⟨htokens ▸ h.inArray, ?_, ?_⟩
  · rw [htokens, hlast, hpaid]
    exact h.weeks
  · rw [hlast]
    exact h.held.trans (Nat.add_le_add_right hbalance _)

/-- new tokens are given to weeks -/
theorem Funded.distribute {now : ℕ} (h : Funded self s 0) (hnow : now % WEEK ≠ 0)
    (hd : checkpointToken s.dist now (s.rewardToken.balanceOf self) = .ok d') : Funded self { s with dist := d' } 0 := by
  obtain ⟨hle, htotal⟩ := checkpointToken_total hd
  have hsum := spreadSum_le_whole (D := s.rewardToken.balanceOf self - s.dist.tokenLastBalance) hle hnow
  simp only [checkpointToken, usub_bind] at hd
  obtain ⟨hlast, -, hd⟩ := hd
  obtain ⟨tokens, ht, hd⟩ := bind_ok.1 hd
  cases hd
  refine ⟨spreadTokens_inArray ht h.inArray, ?_, le_rfl⟩
  have hweeks := h.weeks
  dsimp only at htotal ⊢
  omega

theorem checkpointTotalSupply_books (h : checkpointTotalSupply d s.ve env = .ok (d', ve')) :
    d'.tokensPerWeek = d.tokensPerWeek ∧ d'.tokenLastBalance = d.tokenLastBalance := by
  obtain ⟨ve₁, -, h⟩ := bind_ok.1 h
  obtain ⟨⟨supply, t⟩, -, h⟩ := bind_ok.1 h
  cases h
  exact ⟨rfl, rfl⟩

theorem checkpointIfDue_funded {pending : ℕ} (h : checkpointIfDue s env = .ok s') (hf : Funded self s pending) :
    Funded self s' pending := by
  unfold checkpointIfDue at h
  split_ifs at h
  · obtain ⟨⟨d₁, ve₁⟩, hc, h⟩ := bind_ok.1 h
    cases h
    obtain ⟨h1, h2⟩ := checkpointTotalSupply_books hc
    exact hf.congr h1 h2 rfl le_rfl
  · cases h
    exact hf

theorem claimAndPay_funded {id lastTokenTime amount pending : ℕ} (hinv : Inv s)
    (h : claimAndPay self s id lastTokenTime = .ok (s', amount)) (hf : Funded self s pending) :
    Funded self s' (pending + amount) := by
  obtain ⟨⟨d₁, r⟩, hc, h⟩ := bind_ok.1 h
  obtain ⟨s₁, hp, h⟩ := bind_ok.1 h
  cases h
  obtain ⟨hr, hd⟩ := claimOne_ok hc
  obtain ⟨token, rfl, hmoves⟩ := payOwner_ok hp
  -- what is paid to the owner leaves the distributor, unless it owns the NFT itself
  have hbalance := hmoves self
  rw [if_pos rfl] at hbalance
  have htotal : amounts r.portions = r.toDistribute :=
    (calculateClaim_ok hinv.good.history.userSorted (hinv.ledger.cursor id) hr).total.symm
  have hbooks : d₁.tokensPerWeek = s.dist.tokensPerWeek ∧ d₁.tokenLastBalance = s.dist.tokenLastBalance := by
    rw [hd]
    split_ifs <;> exact ⟨rfl, rfl⟩
  have hweeks := hf.weeks
  have hheld := hf.held
  refine ⟨hbooks.1 ▸ hf.inArray, ?_, ?_⟩
  · dsimp only
    rw [hbooks.1, hbooks.2, amounts_append, htotal]
    omega
  · dsimp only at hbalance ⊢
    rw [hbooks.2]
    omega

theorem claimEach_funded {lastTokenTime pending total' : ℕ} (ids : List ℕ) (hle : lastTokenTime ≤ s.dist.lastTokenTime)
    (hinv : Inv s) (h : claimEach self lastTokenTime ids s pending = .ok (s', total')) (hf : Funded self s pending) :
    Funded self s' total' := by
  induction ids generalizing s pending with
  | nil =>
    cases h
    exact hf
  | cons id ids ih =>
    rw [claimEach] at h
    split_ifs at h
    · cases h
      exact hf
    · obtain ⟨⟨s₁, amount⟩, hc, h⟩ := bind_ok.1 h
      simp only [uadd_bind] at h
      obtain ⟨-, h⟩ := h
      obtain ⟨hve, htime, hstart, hl⟩ := claimAndPay_ledger hc
      exact ih (htime ▸ hle) (hinv.after hve htime hstart (hl hle hinv)) h (claimAndPay_funded hinv hc hf)

/-- the end of a claim: what was transferred is taken off the record -/
theorem lowerIfPaid_funded {amount : ℕ} (h : (if amount ≠ 0 then lowerLastBalance s amount else pure s) = .ok s')
    (hf : Funded self s amount) : Funded self s' 0 := by
  have hweeks := hf.weeks
  have hheld := hf.held
  split_ifs at h with hzero
  · simp only [lowerLastBalance, usub_bind, pure_ok] at h
    obtain ⟨hle, rfl⟩ := h
    refine ⟨hf.inArray, ?_, ?_⟩
    · dsimp only
      omega
    · dsimp only
      omega
  · cases h
    rw [not_not] at hzero
    exact hzero ▸ hf

/-! ## Whole runs -/

/-- the call distributes no tokens at a week boundary -/
def Midweek (s : System) (c : Env × Call) : Prop :=
  match c.2 with
  | .checkpoint => s.dist.activePeriod + WEEK ≤ c.1.timestamp → c.1.timestamp % WEEK ≠ 0
  | _ => True

instance (s : System) (c : Env × Call) : Decidable (Midweek s c) := by
  unfold Midweek
  split <;> infer_instance

theorem checkpoint_funded (h : checkpoint s.dist s.ve env (s.rewardToken.balanceOf self) = .ok (d', ve'))
    (hmid : Midweek s (env, .checkpoint)) (hf : Funded self s 0) : Funded self { s with dist := d', ve := ve' } 0 := by
  simp only [checkpoint, uadd_bind] at h
  obtain ⟨-, h⟩ := h
  split_ifs at h with hdue
  · obtain ⟨d₁, hd, h⟩ := bind_ok.1 h
    have hstart : Funded self { s with dist := { s.dist with activePeriod := env.timestamp / WEEK * WEEK } } 0 :=
      hf.congr rfl rfl rfl le_rfl
    have hgiven := hstart.distribute (hmid hdue) hd
    obtain ⟨h1, h2⟩ := checkpointTotalSupply_books h
    exact hgiven.congr h1 h2 rfl le_rfl
  · cases h
    exact hf

theorem exec_funded {c : Env × Call} (h : exec cfg self s c = .ok s') (hfair : Fair s c) (hmid : Midweek s c)
    (hw : NoWrap s'.ve) (hlen : s'.ve.epoch < 2 ^ 128) (hinv : Inv s) (hf : Funded self s 0) : Funded self s' 0 := by
  obtain ⟨env, call⟩ := c
  obtain ⟨hordered, hwithin, -⟩ := hfair
  cases call with
  | ve call =>
    obtain ⟨ve₁, -, ⟨⟩⟩ := bind_ok.1 h
    exact hf.congr rfl rfl rfl le_rfl
  | checkpoint =>
    obtain ⟨⟨d₁, ve₁⟩, h1, ⟨⟩⟩ := bind_ok.1 h
    exact checkpoint_funded h1 hmid hf
  | checkpointTotalSupply =>
    obtain ⟨⟨d₁, ve₁⟩, h1, ⟨⟩⟩ := bind_ok.1 h
    obtain ⟨h2, h3⟩ := checkpointTotalSupply_books h1
    exact hf.congr h2 h3 rfl le_rfl
  | claim id =>
    obtain ⟨s₁, h1, h⟩ := bind_ok.1 h
    obtain ⟨⟨s₂, amount⟩, h2, h⟩ := bind_ok.1 h
    -- the claim itself leaves the vote escrow as the checkpoint left it
    have hve : s'.ve = s₁.ve := (lowerIfPaid_inv h).1.trans (claimAndPay_ledger h2).1
    have hinv₁ := (checkpointIfDue_keeps h1).2 (hve ▸ hw) (hve ▸ hlen) ⟨hordered, hwithin rfl⟩ hinv
    have hpaid := claimAndPay_funded hinv₁ h2 (checkpointIfDue_funded h1 hf)
    exact lowerIfPaid_funded h (Nat.zero_add amount ▸ hpaid)
  | claimMany ids =>
    obtain ⟨s₁, h1, h⟩ := bind_ok.1 h
    obtain ⟨⟨s₂, total⟩, h2, h⟩ := bind_ok.1 h
    have hve : s'.ve = s₁.ve := (lowerIfPaid_inv h).1.trans (claimEach_inv ids h2).1
    have hinv₁ := (checkpointIfDue_keeps h1).2 (hve ▸ hw) (hve ▸ hlen) ⟨hordered, hwithin rfl⟩ hinv
    exact lowerIfPaid_funded h (claimEach_funded ids (Nat.div_mul_le_self _ _) hinv₁ h2 (checkpointIfDue_funded h1 hf))
  | fund src amount =>
    obtain ⟨token, ht, ⟨⟩⟩ := bind_ok.1 h
    have hbalance := ERC20.transfer_balance ht self
    rw [if_pos rfl] at hbalance
    refine hf.congr rfl rfl rfl ?_
    dsimp only
    split_ifs at hbalance <;> omega

theorem deploySystem_funded (env : Env) (erc20 : Address → ERC20) (shady : Address) (start : ℕ) (rewardToken : ERC20) :
    Funded self (deploySystem env erc20 shady start rewardToken) 0 := by
  refine ⟨fun _ _ => rfl, ?_, Nat.zero_le _⟩
  have hzero : totalTokens (deploySystem env erc20 shady start rewardToken).dist.tokensPerWeek = 0 :=
    Finset.sum_eq_zero fun _ _ => rfl
  rw [hzero]
  exact Nat.zero_le _

section Runs

variable {env₀ : Env} {erc20 : Address → ERC20} {shady : Address} {start : ℕ} {rewardToken : ERC20} {calls : List (Env × Call)}

/-- the books hold after every run whose successful calls are fair and distribute nothing at a week boundary -/
theorem run_funded
    (hcalls : AlongOk (exec cfg self) (fun s c => Fair s c ∧ Midweek s c) (deploySystem env₀ erc20 shady start rewardToken) calls)
    (hwrap : NoWrap (run (exec cfg self) (deploySystem env₀ erc20 shady start rewardToken) calls).ve)
    (hepoch : (run (exec cfg self) (deploySystem env₀ erc20 shady start rewardToken) calls).ve.epoch < 2 ^ 128) :
    Inv (run (exec cfg self) (deploySystem env₀ erc20 shady start rewardToken) calls) ∧
      Funded self (run (exec cfg self) (deploySystem env₀ erc20 shady start rewardToken) calls) 0 := by
  refine run_inv_ok (exec cfg self) (I := fun s => NoWrap s.ve → s.ve.epoch < 2 ^ 128 → Inv s ∧ Funded self s 0) ?_ _ calls
    (fun _ _ => ⟨deploySystem_inv env₀ erc20 shady start rewardToken, deploySystem_funded ..⟩) hcalls hwrap hepoch
  intro s c s' ih ⟨hfair, hmid⟩ h hw hlen
  have hext := (exec_grows h).1
  obtain ⟨hinv, hf⟩ := ih (.of_extends hext hw) (hext.epoch_le.trans_lt hlen)
  exact ⟨exec_inv h hfair hw hlen hinv, exec_funded h hfair hmid hw hlen hinv hf⟩

end Runs

/-! ## What can be claimed -/

/-- all that was paid is within the tokens of all weeks -/
theorem WeekLedger.amounts_le (h : WeekLedger s) (harray : InArray s.dist.tokensPerWeek) :
    amounts s.paid ≤ totalTokens s.dist.tokensPerWeek := Ledger.sum_le_bounds s.paid h.amount_le harray

/-- the cursors of an NFT after a claim -/
def Dist.claimed (d : Dist) (id : ℕ) (r : ClaimCalculationResult) : Dist :=
  { d with
    userEpochOf := Function.update d.userEpochOf id r.userEpoch
    timeCursorOf := Function.update d.timeCursorOf id r.weekCursor }

theorem claimWeeks_claimed (d : Dist) (ve : Ve.State) (id other lastTokenTime maxUserEpoch rounds : ℕ)
    (r : ClaimCalculationResult) (c : ClaimLoop) :
    claimWeeks (d.claimed id r) ve other lastTokenTime maxUserEpoch rounds c =
      claimWeeks d ve other lastTokenTime maxUserEpoch rounds c := by
  induction rounds generalizing c with
  | zero => rfl
  | succ rounds ih => simp only [claimWeeks, payWeek, Dist.claimed] at ih ⊢; simp only [ih]

/-- what was claimed for one NFT does not change what another can claim -/
theorem claimable_claimed {ve : Ve.State} {id other : ℕ} (r : ClaimCalculationResult) (hne : other ≠ id) :
    claimable (d.claimed id r) ve other = claimable d ve other := by
  have htime : (d.claimed id r).timeCursorOf other = d.timeCursorOf other := Function.update_of_ne hne _ _
  have hepoch : (d.claimed id r).userEpochOf other = d.userEpochOf other := Function.update_of_ne hne _ _
  have hfirst : firstUserEpoch (d.claimed id r) ve other = firstUserEpoch d ve other := by
    simp only [firstUserEpoch, htime, hepoch]
    rfl
  have hweek : ∀ point, firstWeekCursor (d.claimed id r) other point = firstWeekCursor d other point := by
    intro point
    simp only [firstWeekCursor, htime]
  simp only [claimable, calculateClaim, hfirst, hweek, calculateToDistribute, claimWeeks_claimed]
  rfl

/-- the claims of different NFTs, one after the other: the books hold with all of them -/
theorem Inv.claim_each (ids : List ℕ) (hnodup : ids.Nodup) (amount : ℕ → ℕ) (hinv : Inv s)
    (h : ∀ id ∈ ids, claimable s.dist s.ve id = .ok (amount id)) :
    ∃ d ps, WeekLedger { s with dist := d, paid := s.paid ++ ps } ∧ d.tokensPerWeek = s.dist.tokensPerWeek ∧
      amounts ps = (ids.map amount).sum := by
  induction ids generalizing s with
  | nil => exact ⟨s.dist, [], by rw [List.append_nil]; exact hinv.ledger, rfl, rfl⟩
  | cons id ids ih =>
    obtain ⟨hnotMem, hnodup⟩ := List.nodup_cons.1 hnodup
    obtain ⟨r, hr, hamount⟩ := bind_ok.1 (h id List.mem_cons_self)
    have hl := hinv.ledger
    have hok := calculateClaim_ok hinv.good.history.userSorted (hl.cursor id) hr
    have hportions : amounts r.portions = amount id := hok.total.symm.trans (Except.ok.inj hamount)
    have hrest := fun i hi => h i (List.mem_cons_of_mem _ hi)
    by_cases hs : r.success = true
    · obtain ⟨h1, hpays⟩ := hok.pays hs
      have htime : ∀ w, claimStart s.dist s.ve id ≤ w → w < s.dist.lastTokenTime / WEEK * WEEK → w < (lastPoint s.ve).ts := by
        intro w hw1 hw2
        have hle := Nat.div_mul_le_self s.dist.lastTokenTime WEEK
        have h2 : s.dist.startTime ≤ claimStart s.dist s.ve id := le_max_right _ _
        rcases hinv.tokenTime with ht | ht <;> omega
      have hinv₁ : Inv { s with dist := s.dist.claimed id r, paid := s.paid ++ r.portions } :=
        hinv.after rfl rfl rfl (hl.pay h1 hpays htime (hok.cursor hs))
      obtain ⟨d₂, ps, hl₂, htokens, hps⟩ := ih hnodup hinv₁ fun i hi => by
        rw [← hrest i hi]
        exact claimable_claimed r fun e => hnotMem (e ▸ hi)
      refine ⟨d₂, r.portions ++ ps, ?_, htokens, ?_⟩
      · rw [← List.append_assoc]
        exact hl₂
      · rw [amounts_append, hportions, hps, List.map_cons, List.sum_cons]
    · -- nothing to claim
      obtain ⟨d₂, ps, hl₂, htokens, hps⟩ := ih hnodup hinv hrest
      rw [hok.failed (by simpa using hs)] at hportions
      refine ⟨d₂, ps, hl₂, htokens, ?_⟩
      rw [hps, List.map_cons, List.sum_cons, ← hportions]
      simp [amounts]

/-- what different NFTs can claim is recorded as arrived -/
theorem claimable_le (hinv : Inv s) (hf : Funded self s 0) (J : Finset ℕ) (amount : ℕ → ℕ)
    (h : ∀ id ∈ J, claimable s.dist s.ve id = .ok (amount id)) : ∑ id ∈ J, amount id ≤ s.dist.tokenLastBalance := by
  obtain ⟨d, ps, hl, htokens, hps⟩ := hinv.claim_each J.toList J.nodup_toList amount fun id hid => h id (Finset.mem_toList.1 hid)
  have hle := hl.amounts_le (htokens ▸ hf.inArray)
  have hweeks := hf.weeks
  have hsum : (J.toList.map amount).sum = ∑ id ∈ J, amount id := Finset.sum_map_toList J amount
  dsimp only at hle
  rw [htokens, amounts_append, hps, hsum] at hle
  omega

/-! ## Main results -/

/-- **Rewards are there.** After every run whose successful calls are fair and distribute nothing at a week boundary: what
any different NFTs can claim is together at most the recorded balance of the distributor, which its token balance covers. -/
theorem claims_covered (cfg : Config) (self : Address) (env₀ : Env) (erc20 : Address → ERC20) (shady : Address)
    (start : ℕ) (rewardToken : ERC20) (calls : List (Env × Call))
    (hcalls : AlongOk (exec cfg self) (fun s c => Fair s c ∧ Midweek s c) (deploySystem env₀ erc20 shady start rewardToken) calls)
    (hwrap : NoWrap (run (exec cfg self) (deploySystem env₀ erc20 shady start rewardToken) calls).ve)
    (hepoch : (run (exec cfg self) (deploySystem env₀ erc20 shady start rewardToken) calls).ve.epoch < 2 ^ 128)
    (J : Finset ℕ) (amount : ℕ → ℕ) :
    let s := run (exec cfg self) (deploySystem env₀ erc20 shady start rewardToken) calls
    (∀ id ∈ J, claimable s.dist s.ve id = .ok (amount id)) →
      ∑ id ∈ J, amount id ≤ s.dist.tokenLastBalance ∧ s.dist.tokenLastBalance ≤ s.rewardToken.balanceOf self := by
  intro s h
  obtain ⟨hinv, hf⟩ := run_funded hcalls hwrap hepoch
  exact ⟨claimable_le hinv hf J amount h, hf.held⟩

/-- the run of `fairClaim` before its claim -/
def beforeClaim : List (Env × Call) := (oneLock.1, .ve oneLock.2) :: afterLock.take 3

theorem beforeClaim_noWrap : NoWrap (run (exec exampleConfig 60) exampleSystem beforeClaim).ve := by
  rw [beforeClaim, run_cons]
  apply run_noWrap
  · simp [afterLock, Along, Call.locks]
  · rw [exec_ve]
    exact oneLock_noWrap

theorem beforeClaim_midweek : AlongOk (exec exampleConfig 60) (fun s c => Fair s c ∧ Midweek s c)
    (deploySystem (exampleEnv (100 * WEEK)) exampleTokens 7 (100 * WEEK) exampleReward) beforeClaim := by
  decide +kernel

/-- of the 2000 tokens the week has, rounding leaves the lock a little less -/
theorem beforeClaim_claimable : claimable (run (exec exampleConfig 60) exampleSystem beforeClaim).dist
    (run (exec exampleConfig 60) exampleSystem beforeClaim).ve 1 = .ok 1999976851928399707672 := by
  decide +kernel

theorem claims_covered_oneLock :
    1999976851928399707672 ≤ (run (exec exampleConfig 60) exampleSystem beforeClaim).dist.tokenLastBalance := by
  have h := claims_covered exampleConfig 60 _ _ _ _ _ beforeClaim beforeClaim_midweek beforeClaim_noWrap (by decide +kernel) {1}
    (fun _ => 1999976851928399707672) fun id hid => by
      rw [Finset.mem_singleton.1 hid]
      exact beforeClaim_claimable
  rw [Finset.sum_singleton] at h
  exact h.1

/-- **Claims are paid.** After every such run a claim of an owned NFT whose amount the view shows goes through and pays it to
the owner, out of the recorded balance. -/
theorem claim_pays (cfg : Config) (self : Address) (env₀ : Env) (erc20 : Address → ERC20) (shady : Address)
    (start : ℕ) (rewardToken : ERC20) (calls : List (Env × Call))
    (hcalls : AlongOk (exec cfg self) (fun s c => Fair s c ∧ Midweek s c) (deploySystem env₀ erc20 shady start rewardToken) calls)
    (hwrap : NoWrap (run (exec cfg self) (deploySystem env₀ erc20 shady start rewardToken) calls).ve)
    (hepoch : (run (exec cfg self) (deploySystem env₀ erc20 shady start rewardToken) calls).ve.epoch < 2 ^ 128)
    (env : Env) (id amount : ℕ) (hself : self ≠ 0) :
    let s := run (exec cfg self) (deploySystem env₀ erc20 shady start rewardToken) calls
    env.timestamp < s.dist.timeCursor → s.ve.idToOwner id ≠ 0 → claimable s.dist s.ve id = .ok amount →
      ∃ s', exec cfg self s (env, .claim id) = .ok s' ∧ s'.dist.tokenLastBalance + amount = s.dist.tokenLastBalance ∧
        ∀ a, s'.rewardToken.balanceOf a + (if a = self then amount else 0) =
          s.rewardToken.balanceOf a + if a = s.ve.idToOwner id then amount else 0 := by
  intro s hdue howner hamount
  obtain ⟨hinv, hf⟩ := run_funded hcalls hwrap hepoch
  have hle : amount ≤ s.dist.tokenLastBalance := by
    simpa using claimable_le hinv hf {id} (fun _ => amount) fun i hi => by
      rw [Finset.mem_singleton.1 hi]
      exact hamount
  have hheld := hf.held
  obtain ⟨r, hr, hpure⟩ := bind_ok.1 hamount
  obtain rfl : r.toDistribute = amount := Except.ok.inj hpure
  obtain ⟨d₁, hd, hlast⟩ : ∃ d₁, claimOne s.dist s.ve id (s.dist.lastTokenTime / WEEK * WEEK) = .ok (d₁, r) ∧
      d₁.tokenLastBalance = s.dist.tokenLastBalance := by
    rw [claimOne, hr, ok_bind]
    split_ifs
    · exact ⟨_, rfl, rfl⟩
    · exact ⟨_, rfl, rfl⟩
  by_cases hzero : r.toDistribute = 0
  · refine ⟨{ s with dist := d₁, paid := s.paid ++ r.portions }, ?_, ?_, ?_⟩
    · simp only [exec, claim, checkpointIfDue, if_neg (not_le.2 hdue), ok_bind, claimAndPay, hd, payOwner, hzero, ne_eq,
        not_true_eq_false, if_false, pure_bind]
      rfl
    · rw [hzero, Nat.add_zero]
      exact hlast
    · simp [hzero]
  · have hfunds : r.toDistribute ≤ s.rewardToken.balanceOf self := hle.trans hheld
    obtain ⟨token, ht⟩ := ERC20.transfer_succeeds hself howner hfunds
    refine ⟨{ s with
      dist := { d₁ with tokenLastBalance := s.dist.tokenLastBalance - r.toDistribute }
      rewardToken := token
      paid := s.paid ++ r.portions }, ?_, Nat.sub_add_cancel hle, fun a => ERC20.transfer_balance ht a⟩
    simp only [exec, claim, checkpointIfDue, if_neg (not_le.2 hdue), ok_bind, claimAndPay, hd, payOwner, if_pos hzero, ht,
      pure_bind, lowerLastBalance, usub_bind]
    rw [hlast]
    exact ⟨hle, rfl⟩

theorem claim_pays_oneLock :
    let s := run (exec exampleConfig 60) exampleSystem beforeClaim
    ∃ s', exec exampleConfig 60 s (exampleEnv (102 * WEEK + 8), .claim 1) = .ok s' ∧
      s'.dist.tokenLastBalance + 1999976851928399707672 = s.dist.tokenLastBalance := by
  intro s
  obtain ⟨s', hs', hlast, -⟩ := claim_pays exampleConfig 60 _ _ _ _ _ beforeClaim beforeClaim_midweek beforeClaim_noWrap
    (by decide +kernel) (exampleEnv (102 * WEEK + 8)) 1 1999976851928399707672 (by decide) (by decide +kernel)
    (by decide +kernel) beforeClaim_claimable
  exact ⟨s', hs', hlast⟩

end SimContracts.VeDistributor
