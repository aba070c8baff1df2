/-
No week is over-claimed, over whole runs of the vote escrow and its distributor.

The supply of a week boundary is recorded once, and a claim reads the power of its NFT at that boundary later. The two
agree because nothing recorded after the boundary second changes a power at it. In the boundary second itself they may
not: a supply checkpoint that runs in that second is followed by a lock in the same second, whose power counts for the
week but not in its recorded supply. Runs without such a lock are the fair ones.

Results:
  paid_le_tokensPerWeek   in fair runs the portions paid for a week are within its tokens, their powers within its supply
  lock_after_supply       a lock in the boundary second after the supply checkpoint: more than the week's tokens is paid
-/
import SimContracts.Core.Ledger
import SimContracts.VeDistributor.Claims

namespace SimContracts.VeDistributor

open Solidity Ve

variable {cfg : Config} {self : Address} {s s' : System} {d' : Dist} {ve' : Ve.State} {env : Env}

/-! ## The invariant -/

/-- the last global point only moves forward -/
theorem lastTs_le {ve ve' : Ve.State} {now : ℕ} (h : Extends now ve ve') (hi : HistoryInv ve') :
    (lastPoint ve).ts ≤ (lastPoint ve').ts := by
  rw [lastPoint, ← h.points ve.epoch le_rfl]
  exact hi.sorted _ _ h.epoch_le le_rfl

/-- the books of the weeks: recorded supplies cover the powers at their boundary, cursors of NFTs stand on a point, and
what was paid was paid once, for the power at the boundary -/
structure WeekLedger (s : System) : Prop where
  aligned : s.dist.timeCursor % WEEK = 0
  supply : ∀ w, s.dist.veSupply w ≠ 0 → w < s.dist.timeCursor ∧ w ≤ (lastPoint s.ve).ts ∧
    ∀ J : Finset ℕ, ∑ i ∈ J, userPower s.ve i w ≤ s.dist.veSupply w
  cursor : ∀ id, s.dist.timeCursorOf id ≠ 0 → max 1 (s.dist.userEpochOf id) ≤ s.ve.userPointEpoch id ∧
    (s.ve.userPointHistory id (max 1 (s.dist.userEpochOf id))).ts ≤ s.dist.timeCursorOf id
  paid : ∀ p ∈ s.paid, p.week < s.dist.timeCursorOf p.id ∧ p.week < (lastPoint s.ve).ts ∧
    s.dist.veSupply p.week ≠ 0 ∧ (p.power : ℤ) = userPower s.ve p.id p.week ∧
    p.amount ≤ p.power * s.dist.tokensPerWeek p.week / s.dist.veSupply p.week
  once : s.paid.Pairwise fun p q => p.id = q.id → p.week ≠ q.week

/-- tokens are distributed up to a time the vote escrow has a point for -/
def TokenTime (s : System) : Prop :=
  s.dist.lastTokenTime ≤ s.dist.startTime ∨ s.dist.lastTokenTime ≤ (lastPoint s.ve).ts

structure Inv (s : System) : Prop where
  good : Good s.ve
  ledger : WeekLedger s
  tokenTime : TokenTime s

/-! ## One operation -/

/-- the vote escrow moves on, without new power in a second whose supply is recorded -/
theorem WeekLedger.ve (h : WeekLedger s) {now : ℕ} (hext : Extends now s.ve ve') (hi : HistoryInv ve')
    (hle : (lastPoint s.ve).ts ≤ now)
    (hfades : s.dist.veSupply now ≠ 0 → ∀ i, userPower ve' i now ≤ userPower s.ve i now) :
    WeekLedger { s with ve := ve' } := by
  have hlast := lastTs_le hext hi
  refine ⟨h.aligned, ?_, ?_, ?_, h.once⟩
  · intro w hw
    obtain ⟨h1, h2, h3⟩ := h.supply w hw
    refine ⟨h1, h2.trans hlast, fun J => le_trans (Finset.sum_le_sum fun i _ => ?_) (h3 J)⟩
    rcases (h2.trans hle).lt_or_eq with hlt | rfl
    · exact (hext.userPower hlt i).le
    · exact hfades hw i
  · intro id h0
    obtain ⟨h1, h2⟩ := h.cursor id h0
    refine ⟨h1.trans (hext.userEpoch_le id), ?_⟩
    show (ve'.userPointHistory id _).ts ≤ _
    rw [hext.userPoints id _ h1]
    exact h2
  · intro p hp
    obtain ⟨h1, h2, h3, h4, h5⟩ := h.paid p hp
    refine ⟨h1, h2.trans_le hlast, h3, ?_, h5⟩
    rw [h4]
    exact (hext.userPower (h2.trans_le hle) p.id).symm

/-- all powers at a boundary together are the total power there -/
theorem sum_userPower_le {ve : Ve.State} (hg : Good ve) {w : ℕ} (halign : w % WEEK = 0) (hle : w ≤ (lastPoint ve).ts)
    (J : Finset ℕ) : ∑ i ∈ J, userPower ve i w ≤ powerOf (pointAt ve w) w := by
  rw [hg.history.balanced w halign hle]
  have hunused : ∀ i ∈ J, i ∉ J ∩ ids ve → userPower ve i w = 0 := by
    intro i hi hni
    have hids : i ∉ ids ve := fun h => hni (Finset.mem_inter.2 ⟨hi, h⟩)
    have htoken : ve.tokenId < i := by
      simpa [ids] using hids
    exact hg.history.userPower_unused (hg.supply.unused i (.inr htoken)).2 w
  rw [← Finset.sum_subset Finset.inter_subset_left hunused]
  exact Finset.sum_le_sum_of_subset_of_nonneg Finset.inter_subset_right fun i _ _ => userPower_nonneg _ _ _

/-- the supply of the boundaries passed is recorded -/
theorem WeekLedger.record (h : WeekLedger s) (hg : Good s.ve) {upTo t : ℕ} {supply : ℕ → ℕ}
    (hup : upTo ≤ (lastPoint s.ve).ts) (hr : Recorded s.ve upTo s.dist.timeCursor t s.dist.veSupply supply) :
    WeekLedger { s with dist := { s.dist with veSupply := supply, timeCursor := t } } := by
  have hle := hr.le
  have hold : ∀ w, s.dist.veSupply w ≠ 0 → supply w = s.dist.veSupply w :=
    fun w hw => hr.kept w fun hnew => absurd hnew.2.1 (not_le.2 (h.supply w hw).1)
  refine ⟨hr.aligned, ?_, h.cursor, ?_, h.once⟩
  · intro w hw
    by_cases hnew : w % WEEK = 0 ∧ s.dist.timeCursor ≤ w ∧ w < t
    · obtain ⟨halign, hfrom, hto⟩ := hnew
      obtain ⟨hlate, hvalue⟩ := hr.written w halign hfrom hto
      refine ⟨hto, hlate.trans hup, fun J => ?_⟩
      show _ ≤ ((supply w : ℕ) : ℤ)
      rw [hvalue]
      exact sum_userPower_le hg halign (hlate.trans hup) J
    · have hsame := hr.kept w hnew
      have hw' : s.dist.veSupply w ≠ 0 := fun h0 => hw (hsame.trans h0)
      obtain ⟨h1, h2, h3⟩ := h.supply w hw'
      refine ⟨h1.trans_le hle, h2, fun J => ?_⟩
      show _ ≤ ((supply w : ℕ) : ℤ)
      rw [hsame]
      exact h3 J
  · intro p hp
    obtain ⟨h1, h2, h3, h4, h5⟩ := h.paid p hp
    refine ⟨h1, h2, ?_, h4, ?_⟩
    · show supply p.week ≠ 0
      rw [hold _ h3]
      exact h3
    · show p.amount ≤ p.power * s.dist.tokensPerWeek p.week / supply p.week
      rw [hold _ h3]
      exact h5

theorem checkpointTotalSupply_ledger (h : checkpointTotalSupply s.dist s.ve env = .ok (d', ve')) :
    Fades env.timestamp s.ve ve' ∧ d'.lastTokenTime = s.dist.lastTokenTime ∧
      (NoWrap ve' → ve'.epoch < 2 ^ 128 → Timely s.ve env → Good s.ve → WeekLedger s →
        Good ve' ∧ WeekLedger { s with dist := d', ve := ve' } ∧ (lastPoint ve').ts = env.timestamp) := by
  obtain ⟨ve₁, hc, h⟩ := bind_ok.1 h
  obtain ⟨⟨supply, t⟩, hr, h⟩ := bind_ok.1 h
  cases h
  obtain ⟨hfades, hgood⟩ := Ve.checkpoint_good hc
  refine ⟨hfades, rfl, fun hw hlen ht hg hl => ?_⟩
  obtain ⟨hg', hlast⟩ := hgood hw ht hg
  have hl' := hl.ve hfades.grows hg'.history ht.ordered fun _ => hfades.userPower_le
  have hup : env.timestamp / WEEK * WEEK ≤ (lastPoint ve').ts := by
    rw [hlast]
    exact Nat.div_mul_le_self _ _
  exact ⟨hg', hl'.record hg' hup (recordSupply_ok hg'.history hlen hl.aligned hr), hlast⟩

/-! ## Tokens -/

theorem spreadTokens_mono {now D since rounds t week : ℕ} {m m' : ℕ → ℕ}
    (h : spreadTokens now D since rounds t week m = .ok m') (w : ℕ) : m w ≤ m' w := by
  have hadd : ∀ {week amount : ℕ} {m m' : ℕ → ℕ}, addTokens m week amount = .ok m' → m w ≤ m' w := by
    intro week amount m m' h
    simp only [addTokens, inBounds_bind, uadd_bind, pure_ok] at h
    obtain ⟨-, -, rfl⟩ := h
    by_cases hw : w = week
    · rw [hw, Function.update_self]
      exact Nat.le_add_right _ _
    · rw [Function.update_of_ne hw]
  induction rounds generalizing t week m with
  | zero =>
    cases h
    exact le_rfl
  | succ rounds ih =>
    simp only [spreadTokens, uadd_bind] at h
    obtain ⟨-, h⟩ := h
    split_ifs at h
    · obtain ⟨amount, -, h⟩ := bind_ok.1 h
      exact hadd h
    · obtain ⟨amount, -, h⟩ := bind_ok.1 h
      obtain ⟨m₁, hm, h⟩ := bind_ok.1 h
      exact (hadd hm).trans (ih h)

theorem checkpointToken_ok {d : Dist} {now balance : ℕ} (h : checkpointToken d now balance = .ok d') :
    ∃ tokens : ℕ → ℕ, (∀ w, d.tokensPerWeek w ≤ tokens w) ∧
      d' = { d with tokenLastBalance := balance, lastTokenTime := now, tokensPerWeek := tokens } := by
  simp only [checkpointToken, usub_bind] at h
  obtain ⟨-, -, h⟩ := h
  obtain ⟨tokens, ht, h⟩ := bind_ok.1 h
  cases h
  exact ⟨tokens, spreadTokens_mono ht, rfl⟩

theorem WeekLedger.tokens (h : WeekLedger s) (balance now : ℕ) {tokens : ℕ → ℕ}
    (hmono : ∀ w, s.dist.tokensPerWeek w ≤ tokens w) :
    WeekLedger { s with
      dist := { s.dist with tokenLastBalance := balance, lastTokenTime := now, tokensPerWeek := tokens } } := by
  refine ⟨h.aligned, h.supply, h.cursor, fun p hp => ?_, h.once⟩
  obtain ⟨h1, h2, h3, h4, h5⟩ := h.paid p hp
  exact ⟨h1, h2, h3, h4, h5.trans (Nat.div_le_div_right (Nat.mul_le_mul_left _ (hmono _)))⟩

/-! ## Claims -/

theorem claimOne_ok {d : Dist} {ve : Ve.State} {id lastTokenTime : ℕ} {r : ClaimCalculationResult}
    (h : claimOne d ve id lastTokenTime = .ok (d', r)) : calculateClaim d ve id lastTokenTime = .ok r ∧
      d' = if r.success then { d with
        userEpochOf := Function.update d.userEpochOf id r.userEpoch
        timeCursorOf := Function.update d.timeCursorOf id r.weekCursor } else d := by
  obtain ⟨r', hr, h⟩ := bind_ok.1 h
  split_ifs at h with hs
  · cases h
    exact ⟨hr, (if_pos hs).symm⟩
  · cases h
    exact ⟨hr, (if_neg hs).symm⟩

/-- the payment moves the amount to the owner, unless it is the distributor itself, and does not touch the books -/
theorem payOwner_ok {id amount : ℕ} (h : payOwner self s id amount = .ok s') :
    ∃ token, s' = { s with rewardToken := token } ∧ ∀ a, token.balanceOf a + (if a = self then amount else 0) =
      s.rewardToken.balanceOf a + if a = s.ve.idToOwner id then amount else 0 := by
  unfold payOwner at h
  split_ifs at h with hzero
  · obtain ⟨token, ht, h⟩ := bind_ok.1 h
    cases h
    exact ⟨token, rfl, fun a => ERC20.transfer_balance ht a⟩
  · cases h
    refine ⟨s.rewardToken, rfl, fun a => ?_⟩
    rw [not_not.1 hzero, ite_self, ite_self]

/-- what was paid before, and the weeks of a claim, which are later than all weeks paid to the NFT -/
theorem WeekLedger.pay (h : WeekLedger s) {id lastTokenTime src userEpoch weekCursor : ℕ} {ps : List Portion}
    (hsrc : s.dist.timeCursorOf id ≤ src) (hpays : Pays s.dist s.ve id lastTokenTime src weekCursor ps)
    (htime : ∀ w, src ≤ w → w < lastTokenTime → w < (lastPoint s.ve).ts)
    (hcursor : max 1 userEpoch ≤ s.ve.userPointEpoch id ∧ (s.ve.userPointHistory id (max 1 userEpoch)).ts ≤ weekCursor) :
    WeekLedger { s with
      dist := { s.dist with
        userEpochOf := Function.update s.dist.userEpochOf id userEpoch
        timeCursorOf := Function.update s.dist.timeCursorOf id weekCursor }
      paid := s.paid ++ ps } := by
  have hle := hpays.le
  refine ⟨h.aligned, h.supply, ?_, ?_, ?_⟩
  · intro i h0
    dsimp only at h0 ⊢
    by_cases hi : i = id
    · subst hi
      rw [Function.update_self, Function.update_self]
      exact hcursor
    · rw [Function.update_of_ne hi] at h0
      rw [Function.update_of_ne hi, Function.update_of_ne hi]
      exact h.cursor i h0
  · intro p hp
    dsimp only
    rcases List.mem_append.1 hp with hp | hp
    · obtain ⟨h1, h2⟩ := h.paid p hp
      refine ⟨?_, h2⟩
      by_cases hi : p.id = id
      · rw [hi, Function.update_self]
        rw [hi] at h1
        omega
      · rw [Function.update_of_ne hi]
        exact h1
    · obtain ⟨rfl, h2, h3, h4, h5, h6, h7⟩ := hpays.each p hp
      rw [Function.update_self]
      exact ⟨h3, htime _ h2 h4, h5, h6, h7.le⟩
  · refine List.pairwise_append.2 ⟨h.once, hpays.increasing.imp fun hlt _ => hlt.ne, ?_⟩
    intro p hp q hq hid
    obtain ⟨h1, -⟩ := h.paid p hp
    obtain ⟨hq1, hq2, -⟩ := hpays.each q hq
    rw [hid, hq1] at h1
    omega

theorem claimAndPay_ledger {id lastTokenTime amount : ℕ} (h : claimAndPay self s id lastTokenTime = .ok (s', amount)) :
    s'.ve = s.ve ∧ s'.dist.lastTokenTime = s.dist.lastTokenTime ∧ s'.dist.startTime = s.dist.startTime ∧
      (lastTokenTime ≤ s.dist.lastTokenTime → Inv s → WeekLedger s') := by
  obtain ⟨⟨d₁, r⟩, hc, h⟩ := bind_ok.1 h
  obtain ⟨s₁, hp, h⟩ := bind_ok.1 h
  cases h
  obtain ⟨hr, hd⟩ := claimOne_ok hc
  obtain ⟨token, rfl, -⟩ := payOwner_ok hp
  refine ⟨rfl, ?_, ?_, fun hle hinv => ?_⟩
  · rw [hd]
    split_ifs <;> rfl
  · rw [hd]
    split_ifs <;> rfl
  · have hl := hinv.ledger
    have hok := calculateClaim_ok hinv.good.history.userSorted (hl.cursor id) hr
    by_cases hs : r.success = true
    · obtain ⟨h1, hpays⟩ := hok.pays hs
      have htime : ∀ w, claimStart s.dist s.ve id ≤ w → w < lastTokenTime → w < (lastPoint s.ve).ts := by
        intro w hw1 hw2
        have h2 : s.dist.startTime ≤ claimStart s.dist s.ve id := le_max_right _ _
        rcases hinv.tokenTime with ht | ht <;> omega
      rw [if_pos hs] at hd
      subst hd
      have := hl.pay h1 hpays htime (hok.cursor hs)
      exact ⟨this.aligned, this.supply, this.cursor, this.paid, this.once⟩
    · rw [if_neg hs] at hd
      subst hd
      rw [hok.failed (by simpa using hs), List.append_nil]
      exact ⟨hl.aligned, hl.supply, hl.cursor, hl.paid, hl.once⟩

/-- the invariant after a claim: the same vote escrow, and new books -/
theorem Inv.after (h : Inv s) (hve : s'.ve = s.ve) (htime : s'.dist.lastTokenTime = s.dist.lastTokenTime)
    (hstart : s'.dist.startTime = s.dist.startTime) (hl : WeekLedger s') : Inv s' := by
  refine ⟨hve ▸ h.good, hl, ?_⟩
  have := h.tokenTime
  unfold TokenTime at this ⊢
  rwa [hve, htime, hstart]

theorem claimEach_inv {lastTokenTime : ℕ} (ids : List ℕ) {total total' : ℕ}
    (h : claimEach self lastTokenTime ids s total = .ok (s', total')) :
    s'.ve = s.ve ∧ (lastTokenTime ≤ s.dist.lastTokenTime → Inv s → Inv s') := by
  induction ids generalizing s total with
  | nil =>
    cases h
    exact ⟨rfl, fun _ h => h⟩
  | cons id ids ih =>
    rw [claimEach] at h
    split_ifs at h
    · cases h
      exact ⟨rfl, fun _ h => h⟩
    · obtain ⟨⟨s₁, amount⟩, hc, h⟩ := bind_ok.1 h
      simp only [uadd_bind] at h
      obtain ⟨-, h⟩ := h
      obtain ⟨hve, htime, hstart, hl⟩ := claimAndPay_ledger hc
      obtain ⟨hve', hinv'⟩ := ih h
      refine ⟨hve'.trans hve, fun hle hinv => hinv' (htime ▸ hle) ?_⟩
      exact hinv.after hve htime hstart (hl hle hinv)

theorem lowerLastBalance_inv {amount : ℕ} (h : lowerLastBalance s amount = .ok s') : s'.ve = s.ve ∧ (Inv s → Inv s') := by
  simp only [lowerLastBalance, usub_bind, pure_ok] at h
  obtain ⟨-, rfl⟩ := h
  refine ⟨rfl, fun hinv => hinv.after rfl rfl rfl ?_⟩
  have hl := hinv.ledger
  exact ⟨hl.aligned, hl.supply, hl.cursor, hl.paid, hl.once⟩

/-- the end of a claim: the last balance is lowered if anything was paid -/
theorem lowerIfPaid_inv {amount : ℕ} (h : (if amount ≠ 0 then lowerLastBalance s amount else pure s) = .ok s') :
    s'.ve = s.ve ∧ (Inv s → Inv s') := by
  split_ifs at h
  · exact lowerLastBalance_inv h
  · cases h
    exact ⟨rfl, id⟩

/-! ## The entry points -/

/-- what every call of the distributor does: no power is recorded, and the invariant is kept if the call is in time -/
def Keeps (env : Env) (s s' : System) : Prop :=
  Fades env.timestamp s.ve s'.ve ∧
    (NoWrap s'.ve → s'.ve.epoch < 2 ^ 128 → Timely s.ve env → Inv s → Inv s')

/-- a call that is followed by one that leaves the vote escrow alone -/
theorem Keeps.then {s₁ : System} (h : Keeps env s s₁) (hve : s'.ve = s₁.ve) (hinv : Inv s₁ → Inv s') :
    Keeps env s s' := by
  refine ⟨hve ▸ h.1, fun hw hlen ht hi => hinv (h.2 ?_ ?_ ht hi)⟩
  · rwa [← hve]
  · rwa [← hve]

theorem checkpointTotalSupply_keeps (h : checkpointTotalSupply s.dist s.ve env = .ok (d', ve')) :
    Keeps env s { s with dist := d', ve := ve' } := by
  obtain ⟨hfades, htime, hl⟩ := checkpointTotalSupply_ledger h
  refine ⟨hfades, fun hw hlen ht hi => ?_⟩
  obtain ⟨hg', hl', hlast⟩ := hl hw hlen ht hi.good hi.ledger
  refine ⟨hg', hl', ?_⟩
  have hstart : d'.startTime = s.dist.startTime := by
    obtain ⟨ve₁, -, h⟩ := bind_ok.1 h
    obtain ⟨⟨supply, t⟩, -, h⟩ := bind_ok.1 h
    cases h
    rfl
  have hle := lastTs_le hfades.grows hg'.history
  show d'.lastTokenTime ≤ d'.startTime ∨ d'.lastTokenTime ≤ (lastPoint ve').ts
  rw [htime, hstart]
  exact hi.tokenTime.imp_right fun h => h.trans hle

theorem checkpoint_keeps {balance : ℕ} (h : checkpoint s.dist s.ve env balance = .ok (d', ve')) :
    Keeps env s { s with dist := d', ve := ve' } := by
  simp only [checkpoint, uadd_bind] at h
  obtain ⟨-, h⟩ := h
  split_ifs at h
  · obtain ⟨d₁, hd, h⟩ := bind_ok.1 h
    obtain ⟨tokens, hmono, rfl⟩ := checkpointToken_ok hd
    obtain ⟨hfades, htime, hl⟩ := checkpointTotalSupply_ledger
      (s := { s with dist := { s.dist with
        activePeriod := env.timestamp / WEEK * WEEK, tokenLastBalance := balance, lastTokenTime := env.timestamp,
        tokensPerWeek := tokens } }) h
    refine ⟨hfades, fun hw hlen ht hi => ?_⟩
    have ht' := hi.ledger.tokens balance env.timestamp hmono
    obtain ⟨hg', hl', hlast⟩ := hl hw hlen ht hi.good ⟨ht'.aligned, ht'.supply, ht'.cursor, ht'.paid, ht'.once⟩
    refine ⟨hg', ⟨hl'.aligned, hl'.supply, hl'.cursor, hl'.paid, hl'.once⟩, .inr ?_⟩
    show d'.lastTokenTime ≤ (lastPoint ve').ts
    rw [htime, hlast]
  · cases h
    exact ⟨.refl _ _, fun _ _ _ hi => hi⟩

theorem checkpointIfDue_keeps (h : checkpointIfDue s env = .ok s') : Keeps env s s' := by
  unfold checkpointIfDue at h
  split_ifs at h
  · obtain ⟨⟨d₁, ve₁⟩, hc, h⟩ := bind_ok.1 h
    cases h
    exact checkpointTotalSupply_keeps hc
  · cases h
    exact ⟨.refl _ _, fun _ _ _ hi => hi⟩

theorem claim_keeps {id : ℕ} (h : claim self s env id = .ok s') : Keeps env s s' := by
  obtain ⟨s₁, h1, h⟩ := bind_ok.1 h
  obtain ⟨⟨s₂, amount⟩, h2, h⟩ := bind_ok.1 h
  obtain ⟨hve, htime, hstart, hl⟩ := claimAndPay_ledger h2
  obtain ⟨hve', hinv⟩ := lowerIfPaid_inv h
  refine (checkpointIfDue_keeps h1).then (hve'.trans hve) fun hi => hinv (hi.after hve htime hstart ?_)
  exact hl (Nat.div_mul_le_self _ _) hi

theorem claimMany_keeps {ids : List ℕ} (h : claimMany self s env ids = .ok s') : Keeps env s s' := by
  obtain ⟨s₁, h1, h⟩ := bind_ok.1 h
  obtain ⟨⟨s₂, total⟩, h2, h⟩ := bind_ok.1 h
  obtain ⟨hve, hinv⟩ := claimEach_inv ids h2
  obtain ⟨hve', hinv'⟩ := lowerIfPaid_inv h
  exact (checkpointIfDue_keeps h1).then (hve'.trans hve) fun hi => hinv' (hinv (Nat.div_mul_le_self _ _) hi)

/-! ## Whole runs -/

/-- the calls that run a checkpoint of the vote escrow -/
def Call.checkpoints : Call → Bool
  | .ve call => call.checkpoints
  | .fund .. => false
  | _ => true

/-- the calls that can give power to an NFT -/
def Call.locks : Call → Bool
  | .ve call => call.locks
  | _ => false

/-- the call is not before the last checkpoint of the vote escrow; if it runs one, the block is at most 255 weeks after
the start of the week of the last one; and if it locks, no supply is recorded for the second of the block -/
def Fair (s : System) (c : Env × Call) : Prop :=
  (lastPoint s.ve).ts ≤ c.1.timestamp ∧
    (c.2.checkpoints = true → c.1.timestamp ≤ startTs s.ve c.1 / WEEK * WEEK + 255 * WEEK) ∧
    (c.2.locks = true → s.dist.veSupply c.1.timestamp = 0)

instance (s : System) (c : Env × Call) : Decidable (Fair s c) := inferInstanceAs (Decidable (_ ∧ _ ∧ _))

theorem exec_grows {c : Env × Call} (h : exec cfg self s c = .ok s') :
    Extends c.1.timestamp s.ve s'.ve ∧ (c.2.locks = false → Fades c.1.timestamp s.ve s'.ve) := by
  have hother : ∀ {env : Env} {c : Call} {s'}, Fades env.timestamp s.ve s' →
      Extends env.timestamp s.ve s' ∧ (c.locks = false → Fades env.timestamp s.ve s') := fun h1 => ⟨h1.grows, fun _ => h1⟩
  obtain ⟨env, call⟩ := c
  cases call with
  | ve call =>
    obtain ⟨ve₁, h1, ⟨⟩⟩ := bind_ok.1 h
    exact exec_extends h1
  | checkpoint =>
    obtain ⟨⟨d₁, ve₁⟩, h1, ⟨⟩⟩ := bind_ok.1 h
    exact hother (checkpoint_keeps h1).1
  | checkpointTotalSupply =>
    obtain ⟨⟨d₁, ve₁⟩, h1, ⟨⟩⟩ := bind_ok.1 h
    exact hother (checkpointTotalSupply_keeps h1).1
  | claim id => exact hother (claim_keeps h).1
  | claimMany ids => exact hother (claimMany_keeps h).1
  | fund src amount =>
    obtain ⟨token, -, ⟨⟩⟩ := bind_ok.1 h
    exact hother (.refl _ _)

theorem exec_inv {c : Env × Call} (h : exec cfg self s c = .ok s') (hfair : Fair s c) (hw : NoWrap s'.ve)
    (hlen : s'.ve.epoch < 2 ^ 128) (hi : Inv s) : Inv s' := by
  obtain ⟨env, call⟩ := c
  obtain ⟨hordered, hwithin, hlocks⟩ := hfair
  cases call with
  | ve call =>
    obtain ⟨ve₁, h1, ⟨⟩⟩ := bind_ok.1 h
    obtain ⟨hext, hfades⟩ := exec_extends h1
    have hg' := Ve.exec_good (c := (env, call)) hi.good ⟨hordered, hwithin⟩ hw h1
    have hle := lastTs_le hext hg'.history
    refine ⟨hg', hi.ledger.ve hext hg'.history hordered fun hne => ?_, hi.tokenTime.imp_right fun h => h.trans hle⟩
    have hquiet : call.locks = false := by
      by_contra hcon
      exact hne (hlocks (by simpa [Call.locks] using hcon))
    exact (hfades hquiet).userPower_le
  | checkpoint =>
    obtain ⟨⟨d₁, ve₁⟩, h1, ⟨⟩⟩ := bind_ok.1 h
    exact (checkpoint_keeps h1).2 hw hlen ⟨hordered, hwithin rfl⟩ hi
  | checkpointTotalSupply =>
    obtain ⟨⟨d₁, ve₁⟩, h1, ⟨⟩⟩ := bind_ok.1 h
    exact (checkpointTotalSupply_keeps h1).2 hw hlen ⟨hordered, hwithin rfl⟩ hi
  | claim id => exact (claim_keeps h).2 hw hlen ⟨hordered, hwithin rfl⟩ hi
  | claimMany ids => exact (claimMany_keeps h).2 hw hlen ⟨hordered, hwithin rfl⟩ hi
  | fund src amount =>
    obtain ⟨token, -, ⟨⟩⟩ := bind_ok.1 h
    have hl := hi.ledger
    exact hi.after rfl rfl rfl ⟨hl.aligned, hl.supply, hl.cursor, hl.paid, hl.once⟩

/-- both contracts as deployed, with a reward token and a start time of the distributor -/
def deploySystem (env : Env) (erc20 : Address → ERC20) (shady : Address) (start : ℕ) (rewardToken : ERC20) : System :=
  { ve := deploy env erc20 shady, dist := init start, rewardToken, paid := [] }

theorem deploySystem_inv (env : Env) (erc20 : Address → ERC20) (shady : Address) (start : ℕ) (rewardToken : ERC20) :
    Inv (deploySystem env erc20 shady start rewardToken) := by
  refine ⟨deploy_good env erc20 shady, ⟨Nat.mul_mod_left _ _, ?_, ?_, ?_, .nil⟩, .inl le_rfl⟩
  · intro w hw
    exact absurd rfl hw
  · intro id h0
    exact absurd rfl h0
  · intro p hp
    exact absurd hp (List.not_mem_nil)

/-- the powers paid for a week are powers of different NFTs at its start, so its supply covers them -/
theorem WeekLedger.power_le (h : WeekLedger s) (w : ℕ) :
    ((s.paid.filter (·.week = w)).map (·.power)).sum ≤ s.dist.veSupply w := by
  have hmem : ∀ p ∈ s.paid.filter (·.week = w), p ∈ s.paid ∧ p.week = w := by
    intro p hp
    simpa using List.mem_filter.1 hp
  rcases (s.paid.filter (·.week = w)).eq_nil_or_concat with hnil | ⟨_, p₀, hp₀⟩
  · rw [hnil]
    exact Nat.zero_le _
  · have hw : s.dist.veSupply w ≠ 0 := by
      obtain ⟨h1, h2⟩ := hmem p₀ (by rw [hp₀]; simp)
      rw [← h2]
      exact (h.paid p₀ h1).2.2.1
    have hnodup : ((s.paid.filter (·.week = w)).map (·.id)).Nodup := by
      refine List.pairwise_map.2 ((h.once.filter _).imp_of_mem ?_)
      intro p q hp hq hne hid
      exact hne hid ((hmem p hp).2.trans (hmem q hq).2.symm)
    have hcast : ((((s.paid.filter (·.week = w)).map (·.power)).sum : ℕ) : ℤ) =
        ∑ i ∈ ((s.paid.filter (·.week = w)).map (·.id)).toFinset, userPower s.ve i w := by
      rw [List.sum_toFinset _ hnodup, List.map_map, Nat.cast_list_sum, List.map_map]
      congr 1
      refine List.map_congr_left fun p hp => ?_
      obtain ⟨h1, h2⟩ := hmem p hp
      rw [Function.comp_apply, Function.comp_apply, (h.paid p h1).2.2.2.1, h2]
    have hsum := (h.supply w hw).2.2 ((s.paid.filter (·.week = w)).map (·.id)).toFinset
    rw [← hcast] at hsum
    exact_mod_cast hsum

/-- the amounts paid for a week are within its tokens -/
theorem WeekLedger.amount_le (h : WeekLedger s) (w : ℕ) :
    ((s.paid.filter (·.week = w)).map (·.amount)).sum ≤ s.dist.tokensPerWeek w := by
  have hfloor : ((s.paid.filter (·.week = w)).map (·.amount)).sum ≤
      (((s.paid.filter (·.week = w)).map (·.power)).map fun x => x * s.dist.tokensPerWeek w / s.dist.veSupply w).sum := by
    rw [List.map_map]
    refine List.sum_le_sum fun p hp => ?_
    obtain ⟨hmem, hw⟩ := List.mem_filter.1 hp
    obtain rfl : p.week = w := by simpa using hw
    exact (h.paid p hmem).2.2.2.2
  exact hfloor.trans (Ledger.sum_floor_le _ (h.power_le w))

/-- **No week is over-claimed.** In every state of a run whose successful calls are fair, the amounts paid for a week are together within
the tokens of that week, and the powers they were paid for within its recorded supply. -/
theorem paid_le_tokensPerWeek (cfg : Config) (self : Address) (env₀ : Env) (erc20 : Address → ERC20) (shady : Address)
    (start : ℕ) (rewardToken : ERC20) (calls : List (Env × Call))
    (hcalls : AlongOk (exec cfg self) Fair (deploySystem env₀ erc20 shady start rewardToken) calls)
    (hwrap : NoWrap (run (exec cfg self) (deploySystem env₀ erc20 shady start rewardToken) calls).ve)
    (hepoch : (run (exec cfg self) (deploySystem env₀ erc20 shady start rewardToken) calls).ve.epoch < 2 ^ 128) (w : ℕ) :
    let s := run (exec cfg self) (deploySystem env₀ erc20 shady start rewardToken) calls
    ((s.paid.filter (·.week = w)).map (·.amount)).sum ≤ s.dist.tokensPerWeek w ∧
      ((s.paid.filter (·.week = w)).map (·.power)).sum ≤ s.dist.veSupply w := by
  intro s
  have hinv : NoWrap s.ve → s.ve.epoch < 2 ^ 128 → Inv s := by
    refine run_inv_ok (exec cfg self) (I := fun s => NoWrap s.ve → s.ve.epoch < 2 ^ 128 → Inv s) ?_ _ calls
      (fun _ _ => deploySystem_inv env₀ erc20 shady start rewardToken) hcalls
    intro s c s' ih hfair h hw hlen
    have hext := (exec_grows h).1
    exact exec_inv h hfair hw hlen (ih (.of_extends hext hw) (hext.epoch_le.trans_lt hlen))
  have hl := (hinv hwrap hepoch).ledger
  exact ⟨hl.amount_le w, hl.power_le w⟩

/-! ### A claim, and a lock in the boundary second -/

/-- account 1 holds the reward token -/
def exampleReward : ERC20 :=
  { balanceOf := fun a => if a = 1 then 10 ^ 25 else 0, allowance := fun _ _ => 0, totalSupply := 10 ^ 25 }

def exampleSystem : System := deploySystem (exampleEnv (100 * WEEK)) exampleTokens 7 (100 * WEEK) exampleReward

/-- the supply of the boundary after a lock is recorded, rewards come in for that week, and the lock claims them -/
def afterLock : List (Env × Call) :=
  [(exampleEnv (101 * WEEK + 5), .checkpoint),
   (exampleEnv (101 * WEEK + 6), .fund 1 (2 * 10 ^ 21)),
   (exampleEnv (102 * WEEK + 7), .checkpoint),
   (exampleEnv (102 * WEEK + 8), .claim 1)]

def fairClaim : List (Env × Call) := (oneLock.1, .ve oneLock.2) :: afterLock

theorem run_noWrap {calls : List (Env × Call)} (h : Along (exec cfg self) (fun _ c => c.2.locks = false) s calls)
    (hw : NoWrap s.ve) : NoWrap (run (exec cfg self) s calls).ve :=
  run_inv (exec cfg self) (I := fun s => NoWrap s.ve) (fun _ _ _ hw hl h => ((exec_grows h).2 hl).noWrap hw) s calls hw h

theorem exec_ve (cfg : Config) (self : Address) (s : System) (env : Env) (call : Ve.Call) :
    (commit s (exec cfg self s (env, .ve call))).ve = commit s.ve (Ve.execIn cfg s.ve (env, call)) := by
  show (commit s (Ve.execIn cfg s.ve (env, call) >>= fun ve => pure { s with ve })).ve = _
  cases Ve.execIn cfg s.ve (env, call) <;> rfl

theorem fairClaim_noWrap : NoWrap (run (exec exampleConfig 60) exampleSystem fairClaim).ve := by
  rw [fairClaim, run_cons]
  apply run_noWrap
  · simp [afterLock, Along, Call.locks]
  · rw [exec_ve]
    exact oneLock_noWrap

theorem paid_le_fairClaim :
    let s := run (exec exampleConfig 60) exampleSystem fairClaim
    s.paid.map (·.week) = [101 * WEEK] ∧
      ((s.paid.filter (·.week = 101 * WEEK)).map (·.amount)).sum ≤ s.dist.tokensPerWeek (101 * WEEK) ∧
      ((s.paid.filter (·.week = 101 * WEEK)).map (·.power)).sum ≤ s.dist.veSupply (101 * WEEK) := by
  rw [exampleSystem]
  exact ⟨by decide +kernel, paid_le_tokensPerWeek exampleConfig 60 _ _ _ _ _ fairClaim (by decide +kernel) fairClaim_noWrap
    (by decide +kernel) (101 * WEEK)⟩

/-- The supply of week 101 is recorded in its first second, with two locks; a third lock is made in the same second.
Later the first and the third claim: together they are paid more than the tokens of the week, for more power than its
supply. -/
theorem lock_after_supply :
    let lock (amount : ℕ) : Call := .ve (.createLock 7 amount (16 * WEEK) (.ok true))
    let calls : List (Env × Call) :=
      [(exampleEnv (100 * WEEK + 5), lock (10 ^ 23)),
       (exampleEnv (100 * WEEK + 6), lock (9 * 10 ^ 23)),
       (exampleEnv (101 * WEEK), .checkpoint),
       (exampleEnv (101 * WEEK), lock (10 ^ 24)),
       (exampleEnv (101 * WEEK + 1), .fund 1 (2 * 10 ^ 21)),
       (exampleEnv (103 * WEEK + 1), .checkpoint),
       (exampleEnv (103 * WEEK + 2), .claim 1),
       (exampleEnv (103 * WEEK + 2), .claim 3)]
    let s := run (exec exampleConfig 60) exampleSystem calls
    let portions := s.paid.filter (·.week = 101 * WEEK)
    s.dist.tokensPerWeek (101 * WEEK) < (portions.map (·.amount)).sum ∧
      s.dist.veSupply (101 * WEEK) < (portions.map (·.power)).sum := by
  decide +kernel

end SimContracts.VeDistributor
