/-
Voting power by block against voting power by time. The views by block find the last point not after the block by binary
search, estimate the time of the block on the line to the next point (or to now), and go on from there as the views by
time do. The total starts from the global point; the power of an NFT starts from its own point and takes only the time
from the global ones, so that time must not lie before the NFT's point.

Results:
  totalSupplyAt_now, balanceOfAtNFT_now   at the present block both views agree
  block_views                             that, and that no query of a past block fails
  block_views_fail                        runs outside its conditions in which queries fail
-/
import SimContracts.Ve.Clock

namespace SimContracts.Ve

open Solidity Decay Search

variable {cfg : Config} {s s' : State} {env : Env} {b : ℕ}

/-! ## The time of a block -/

/-- the point the line from a global point goes to: the next one, or the present block -/
def pointAhead (s : State) (env : Env) (epoch : ℕ) : Point :=
  if epoch < s.epoch then s.pointHistory (epoch + 1) else ⟨0, 0, env.timestamp, env.number⟩

/-- time of a block on the line between two points, rounded down; the time of the first if both are of one block -/
def timeBetween (p q : Point) (b : ℕ) : ℕ := p.ts + (q.ts - p.ts) * (b - p.blk) / (q.blk - p.blk)

theorem timeBetween_le {p q : Point} (hts : p.ts ≤ q.ts) (hb : b ≤ q.blk) : timeBetween p q b ≤ q.ts := by
  have hshare : (q.ts - p.ts) * (b - p.blk) / (q.blk - p.blk) ≤ q.ts - p.ts := by
    rw [Nat.mul_comm]
    exact Nat.div_le_of_le_mul (Nat.mul_le_mul_right _ (Nat.sub_le_sub_right hb _))
  rw [timeBetween]
  omega

theorem timeBetween_end {p q : Point} (hts : p.ts ≤ q.ts) (hblk : p.blk ≤ q.blk) (hsame : p.blk = q.blk → p.ts = q.ts) :
    timeBetween p q q.blk = q.ts := by
  rw [timeBetween]
  rcases hblk.eq_or_lt with heq | hlt
  · rw [hsame heq, heq, Nat.sub_self, Nat.zero_mul, Nat.zero_div, Nat.add_zero]
  · rw [Nat.mul_div_cancel _ (by omega)]
    omega

/-- the block lies on the line from a global point -/
structure OnLine (s : State) (env : Env) (b epoch : ℕ) : Prop where
  le_epoch : epoch ≤ s.epoch
  blk : (s.pointHistory epoch).blk ≤ b
  ahead : b ≤ (pointAhead s env epoch).blk
  beyond : ∀ j, epoch < j → j ≤ s.epoch → b < (s.pointHistory j).blk
  ts : (s.pointHistory epoch).ts ≤ (pointAhead s env epoch).ts
  now : (pointAhead s env epoch).ts ≤ env.timestamp ∧ (pointAhead s env epoch).blk ≤ env.number
  same : (s.pointHistory epoch).blk = (pointAhead s env epoch).blk →
    (s.pointHistory epoch).ts = (pointAhead s env epoch).ts

/-- **The search finds the point before the block.** -/
theorem findBlockEpoch_onLine (hc : GlobalClock env s) (hlen : s.epoch < 2 ^ 128) (hfirst : (s.pointHistory 0).blk ≤ b)
    (hb : b ≤ env.number) : OnLine s env b (findBlockEpoch s b s.epoch) := by
  have hlast : IsLast (fun i => (s.pointHistory i).blk) b 0 s.epoch (findBlockEpoch s b s.epoch) :=
    searchLast_spec (.inl rfl) 128 0 s.epoch (Nat.zero_le _) hlen fun i j _ hij hj => (hc.mono hij hj).2
  generalize findBlockEpoch s b s.epoch = e at hlast ⊢
  have hle := hlast.le_hi
  have hblk : (s.pointHistory e).blk ≤ b := by
    rcases Nat.eq_zero_or_pos e with rfl | hpos
    · exact hfirst
    · exact hlast.at_most hpos
  by_cases he : e < s.epoch
  · have hahead : pointAhead s env e = s.pointHistory (e + 1) := if_pos he
    have hbeyond : b < (s.pointHistory (e + 1)).blk := hlast.beyond (e + 1) (Nat.lt_succ_self e) he
    obtain ⟨hts, hblk'⟩ := hc.mono (Nat.succ_le_of_lt he) le_rfl
    constructor
    · exact hle
    · exact hblk
    · exact hahead ▸ hbeyond.le
    · exact hlast.beyond
    · exact hahead ▸ (hc.sorted e he).1
    · exact hahead ▸ ⟨hts.trans hc.last.ts, hblk'.trans hc.last.blk⟩
    · rw [hahead]
      omega
  · have hahead : pointAhead s env e = ⟨0, 0, env.timestamp, env.number⟩ := if_neg he
    obtain rfl : e = s.epoch := by omega
    have hpast : Past env (s.pointHistory s.epoch) := hc.last
    constructor
    · exact hle
    · exact hblk
    · exact hahead ▸ hb
    · exact hlast.beyond
    · exact hahead ▸ hpast.ts
    · exact hahead ▸ ⟨le_rfl, le_rfl⟩
    · exact hahead ▸ hpast.same

/-- the present block lies on the line from the last point -/
theorem findBlockEpoch_now (hc : GlobalClock env s) (hlen : s.epoch < 2 ^ 128) :
    findBlockEpoch s env.number s.epoch = s.epoch := by
  have hlast : IsLast (fun i => (s.pointHistory i).blk) env.number 0 s.epoch (findBlockEpoch s env.number s.epoch) :=
    searchLast_spec (.inl rfl) 128 0 s.epoch (Nat.zero_le _) hlen fun i j _ hij hj => (hc.mono hij hj).2
  rcases hlast.le_hi.eq_or_lt with heq | hlt
  · exact heq
  · exact absurd (hlast.beyond s.epoch hlt le_rfl) (not_lt.2 hc.last.blk)

/-- a product of seconds and blocks fits a word -/
theorem seconds_mul_blocks {x y : ℕ} (hx : x ≤ env.timestamp) (hy : y ≤ env.number) (hts : env.timestamp < 2 ^ 127)
    (hnum : env.number < 2 ^ 128) : x * y < 2 ^ 256 := by
  calc x * y ≤ env.timestamp * env.number := Nat.mul_le_mul hx hy
    _ < 2 ^ 127 * 2 ^ 128 := Nat.mul_lt_mul'' hts hnum
    _ ≤ 2 ^ 256 := by norm_num

variable {e : ℕ}

theorem pointSpan_eq (h : OnLine s env b e) : pointSpan s env e =
    .ok ((pointAhead s env e).blk - (s.pointHistory e).blk, (pointAhead s env e).ts - (s.pointHistory e).ts) := by
  have hblk := h.blk.trans h.ahead
  have hts := h.ts
  unfold pointSpan pointAhead
  unfold pointAhead at hblk hts
  by_cases he : e < s.epoch
  · simp only [if_pos he] at hblk hts ⊢
    rw [usub, if_pos hblk, ok_bind, usub, if_pos hts, ok_bind]
    rfl
  · simp only [if_neg he] at hblk hts ⊢
    rw [usub, if_pos hblk, ok_bind, usub, if_pos hts, ok_bind]
    rfl

theorem blockTime_eq (h : OnLine s env b e) (hts : env.timestamp < 2 ^ 127) (hnum : env.number < 2 ^ 128) :
    blockTime (s.pointHistory e) b ((pointAhead s env e).blk - (s.pointHistory e).blk)
      ((pointAhead s env e).ts - (s.pointHistory e).ts) = .ok (timeBetween (s.pointHistory e) (pointAhead s env e) b) := by
  have hahead := h.ahead
  obtain ⟨hnow, hnumber⟩ := h.now
  have htime := timeBetween_le h.ts hahead
  unfold blockTime
  split_ifs with hmoves
  · have hmul := seconds_mul_blocks (x := (pointAhead s env e).ts - (s.pointHistory e).ts) (y := b - (s.pointHistory e).blk)
      ((Nat.sub_le _ _).trans hnow) ((Nat.sub_le _ _).trans (hahead.trans hnumber)) hts hnum
    rw [umul, fits, if_pos hmul, ok_bind, uadd, fits, if_pos]
    · rfl
    · rw [timeBetween] at htime
      omega
  · -- no block between the two points, or none up to the block
    congr 1
    rw [timeBetween]
    rcases not_and_or.1 hmoves with hnone | hstart
    · rw [not_not.1 hnone, Nat.div_zero, Nat.add_zero]
    · rw [Nat.sub_eq_zero_of_le (not_lt.1 hstart), Nat.mul_zero, Nat.zero_div, Nat.add_zero]

theorem secondsToBlock_eq (h : OnLine s env b e) (hts : env.timestamp < 2 ^ 127) (hnum : env.number < 2 ^ 128) :
    secondsToBlock s env b e = .ok (((pointAhead s env e).ts - (s.pointHistory e).ts) * (b - (s.pointHistory e).blk) /
      ((pointAhead s env e).blk - (s.pointHistory e).blk)) := by
  have hblk := h.blk
  have hahead := h.ahead
  have hle := h.ts
  obtain ⟨hnow, hnumber⟩ := h.now
  have hblk' := hblk.trans hahead
  have hmul := seconds_mul_blocks (x := (pointAhead s env e).ts - (s.pointHistory e).ts) (y := b - (s.pointHistory e).blk)
    ((Nat.sub_le _ _).trans hnow) ((Nat.sub_le _ _).trans (hahead.trans hnumber)) hts hnum
  rw [Nat.mul_comm] at hmul ⊢
  unfold secondsToBlock
  unfold pointAhead at hmul hle hblk' ⊢
  by_cases he : e < s.epoch
  · have hpos := h.beyond (e + 1) (Nat.lt_succ_self e) he
    simp only [if_pos he] at hmul hle hblk' ⊢
    rw [usub, if_pos hle, ok_bind, umul, fits, if_pos hmul, ok_bind, usub, if_pos hblk', ok_bind, udiv, if_pos (by omega)]
  · simp only [if_neg he] at hmul hle hblk' ⊢
    by_cases heq : (s.pointHistory e).blk = env.number
    · rw [if_neg (not_not.2 heq), heq, Nat.sub_self, Nat.div_zero]
    · rw [if_pos heq, usub, if_pos hle, ok_bind, umul, fits, if_pos hmul, ok_bind, usub, if_pos hblk', ok_bind, udiv,
        if_pos (by omega)]

/-- the total supply at a block is carried forward from the point before it to the time of the block -/
theorem totalSupplyAt_eq (h : OnLine s env b (findBlockEpoch s b s.epoch)) (hb : b ≤ env.number)
    (hts : env.timestamp < 2 ^ 127) (hnum : env.number < 2 ^ 128) :
    totalSupplyAt s env b = supplyAt s (s.pointHistory (findBlockEpoch s b s.epoch))
      (timeBetween (s.pointHistory (findBlockEpoch s b s.epoch)) (pointAhead s env (findBlockEpoch s b s.epoch)) b) := by
  have htime := timeBetween_le h.ts h.ahead
  have hnow := h.now.1
  rw [timeBetween] at htime
  rw [totalSupplyAt, require, if_pos hb, ok_bind]
  dsimp only
  rw [if_neg (not_lt.2 h.blk), secondsToBlock_eq h hts hnum, ok_bind, uadd, fits, if_pos (by omega), ok_bind]
  rfl

/-! ## The present block -/

theorem totalSupplyAt_now (hc : GlobalClock env s) (hlen : s.epoch < 2 ^ 128) (hts : env.timestamp < 2 ^ 127)
    (hnum : env.number < 2 ^ 128) : totalSupplyAt s env env.number = totalSupplyAtT s env.timestamp := by
  have hfirst : (s.pointHistory 0).blk ≤ env.number := (hc.mono (Nat.zero_le _) le_rfl).2.trans hc.last.blk
  have hline := findBlockEpoch_onLine hc hlen hfirst le_rfl
  have hfound := findBlockEpoch_now hc hlen
  have hahead : pointAhead s env s.epoch = ⟨0, 0, env.timestamp, env.number⟩ := if_neg (lt_irrefl _)
  rw [totalSupplyAt_eq hline le_rfl hts hnum, hfound]
  rw [hfound] at hline
  have hblk := hline.blk.trans hline.ahead
  have hend := timeBetween_end hline.ts hblk hline.same
  rw [hahead] at hend ⊢
  rw [hend, totalSupplyAtT]

/-- the point of an NFT that `_balanceOfAtNFT` starts from -/
def userPointAtBlock (s : State) (id b : ℕ) : Point :=
  s.userPointHistory id (searchLast (fun i => (s.userPointHistory id i).blk) b 1 128 0 (s.userPointEpoch id))

/-- the time `_balanceOfAtNFT` computes for a block -/
def timeOfBlock (s : State) (env : Env) (b : ℕ) : Res ℕ := do
  let epoch := findBlockEpoch s b s.epoch
  let (dBlock, dt) ← pointSpan s env epoch
  blockTime (s.pointHistory epoch) b dBlock dt

/-- the power left of a point at a time -/
def powerLeft (u : Point) (t : ℕ) : Res ℕ := do
  let dt ← usub t u.ts
  let decay ← i128 (u.slope * asInt128 dt)
  let bias ← i128 (u.bias - decay)
  pure (positiveInt128 bias).toNat

/-- the power of an NFT at a block is what its point has left at the time of the block -/
theorem balanceOfAtNFT_eq (h : OnLine s env b (findBlockEpoch s b s.epoch)) (hb : b ≤ env.number)
    (hts : env.timestamp < 2 ^ 127) (hnum : env.number < 2 ^ 128) (id : ℕ) :
    balanceOfAtNFT s env id b = powerLeft (userPointAtBlock s id b)
      (timeBetween (s.pointHistory (findBlockEpoch s b s.epoch)) (pointAhead s env (findBlockEpoch s b s.epoch)) b) := by
  rw [balanceOfAtNFT, require, if_pos hb, ok_bind]
  dsimp only
  rw [pointSpan_eq h, ok_bind]
  dsimp only
  rw [blockTime_eq h hts hnum, ok_bind]
  rfl

/-- the point of an NFT found for a block -/
theorem userPointAtBlock_last {id : ℕ} (hc : UserClock env (s.userPointEpoch id) (s.userPointHistory id)) :
    ∃ k, userPointAtBlock s id b = s.userPointHistory id k ∧
      IsLast (fun i => (s.userPointHistory id i).blk) b 0 (s.userPointEpoch id) k := by
  have hlen : s.userPointEpoch id - 0 < 2 ^ 128 := by
    have hbound := hc.bounded
    simp only [USER_POINTS] at hbound
    omega
  exact ⟨_, rfl, searchLast_spec (.inl rfl) 128 0 _ (Nat.zero_le _) hlen fun i j _ hij hj => hc.mono hij hj⟩

/-- the power left at a time from the last point on, as `_balanceOfNFT` computes it -/
theorem balanceOfNFTAt_eq_powerLeft {id t : ℕ} (hc : UserClock env (s.userPointEpoch id) (s.userPointHistory id))
    (hle : (userPoint s id).ts ≤ t) (ht : t < 2 ^ 127) : balanceOfNFTAt s id t = powerLeft (userPoint s id) t := by
  have hdt : (t : ℤ) - ((userPoint s id).ts : ℤ) = ((t - (userPoint s id).ts : ℕ) : ℤ) := by omega
  unfold balanceOfNFTAt powerLeft
  rw [usub, if_pos hle, ok_bind]
  by_cases h0 : s.userPointEpoch id = 0
  · -- no point was recorded: the empty one has no power
    have hnone : userPoint s id = ⟨0, 0, 0, 0⟩ := by rw [userPoint, h0, hc.first]
    have hzero : IsInt128 0 := by decide
    rw [if_pos h0, hnone]
    simp [i128, hzero, ok_bind, positiveInt128, pure, Except.pure]
  · have hrange : -2 ^ 255 ≤ ((t - (userPoint s id).ts : ℕ) : ℤ) ∧ ((t - (userPoint s id).ts : ℕ) : ℤ) < 2 ^ 255 := by
      constructor
      · have : (0 : ℤ) ≤ ((t - (userPoint s id).ts : ℕ) : ℤ) := Int.natCast_nonneg _
        norm_num
      · norm_num
        omega
    rw [if_neg h0]
    dsimp only
    rw [show s.userPointHistory id (s.userPointEpoch id) = userPoint s id from rfl, require, if_pos hle, ok_bind,
      asInt256_of_lt ht, asInt256_of_lt (lt_of_le_of_lt hle ht), hdt, i256, if_pos hrange, ok_bind]

theorem balanceOfAtNFT_now (hc : Clocked env s) (hlen : s.epoch < 2 ^ 128) (hts : env.timestamp < 2 ^ 127)
    (hnum : env.number < 2 ^ 128) (id : ℕ) : balanceOfAtNFT s env id env.number = balanceOfNFTAt s id env.timestamp := by
  have hfirst : (s.pointHistory 0).blk ≤ env.number := (hc.global.mono (Nat.zero_le _) le_rfl).2.trans hc.global.last.blk
  have hline := findBlockEpoch_onLine hc.global hlen hfirst le_rfl
  have hfound := findBlockEpoch_now hc.global hlen
  have hahead : pointAhead s env s.epoch = ⟨0, 0, env.timestamp, env.number⟩ := if_neg (lt_irrefl _)
  obtain ⟨k, hk, hlast⟩ := userPointAtBlock_last (b := env.number) (hc.users id)
  have hpast := (hc.users id).past _ le_rfl
  -- the last point of the NFT is not after the present block either
  obtain rfl : k = s.userPointEpoch id := by
    rcases hlast.le_hi.eq_or_lt with heq | hlt
    · exact heq
    · exact absurd (hlast.beyond _ hlt le_rfl) (not_lt.2 hpast.2)
  rw [balanceOfAtNFT_eq hline le_rfl hts hnum, hfound, hk]
  rw [hfound] at hline
  have hend := timeBetween_end hline.ts (hline.blk.trans hline.ahead) hline.same
  rw [hahead] at hend ⊢
  rw [hend]
  exact (balanceOfNFTAt_eq_powerLeft (hc.users id) hpast.1 hts).symm

/-! ## Past blocks -/

/-- the point of an NFT is not after the time of the block -/
theorem userPointAtBlock_le (hc : Clocked env s) (htw : Twinned s) (h : OnLine s env b e) (id : ℕ) :
    (userPointAtBlock s id b).ts ≤ timeBetween (s.pointHistory e) (pointAhead s env e) b := by
  obtain ⟨k, hk, hlast⟩ := userPointAtBlock_last (b := b) (hc.users id)
  have hstart : (userPointAtBlock s id b).ts ≤ (s.pointHistory e).ts := by
    rw [hk]
    rcases Nat.eq_zero_or_pos k with rfl | hpos
    · rw [(hc.users id).first]
      exact Nat.zero_le _
    · -- the global point of the same block is not after the one found
      obtain ⟨j, hj, hts, hblk⟩ := htw id k hpos hlast.le_hi
      have hblk' : (s.userPointHistory id k).blk ≤ b := hlast.at_most hpos
      have hje : j ≤ e := by
        by_contra hlt
        have := h.beyond j (not_le.1 hlt) hj
        omega
      rw [← hts]
      exact (hc.global.mono hje h.le_epoch).1
  exact hstart.trans (Nat.le_add_right _ _)

/-- a line that decays from a nonnegative value can be followed as long as the decay fits -/
theorem powerLeft_succeeds {u : Point} {t : ℕ} (hle : u.ts ≤ t) (ht : t < 2 ^ 127) (hslope : 0 ≤ u.slope)
    (hfit : u.slope * t < 2 ^ 127) (hbias : IsInt128 u.bias) (hpos : 0 ≤ u.bias) : Succeeds (powerLeft u t) := by
  have hdt0 : (0 : ℤ) ≤ ((t - u.ts : ℕ) : ℤ) := Int.natCast_nonneg _
  have hdt : asInt128 ((t - u.ts : ℕ) : ℤ) = ((t - u.ts : ℕ) : ℤ) := by
    refine asInt128_eq ⟨le_trans (by norm_num) hdt0, ?_⟩
    norm_num
    omega
  have hdecay0 : 0 ≤ u.slope * ((t - u.ts : ℕ) : ℤ) := mul_nonneg hslope hdt0
  have hdecay_le : u.slope * ((t - u.ts : ℕ) : ℤ) ≤ u.slope * t := mul_le_mul_of_nonneg_left (by omega) hslope
  have hdecay : IsInt128 (u.slope * ((t - u.ts : ℕ) : ℤ)) :=
    ⟨le_trans (by norm_num) hdecay0, lt_of_le_of_lt hdecay_le hfit⟩
  have hleft : IsInt128 (u.bias - u.slope * ((t - u.ts : ℕ) : ℤ)) :=
    ⟨by linarith [hdecay.2], lt_of_le_of_lt (by linarith) hbias.2⟩
  rw [powerLeft, usub, if_pos hle, ok_bind, hdt, i128, if_pos hdecay, ok_bind, i128, if_pos hleft, ok_bind]
  exact succeeds_pure _

/-- a point is carried forward within its stretch in one round -/
theorem supplyAt_stretch {p q : Point} {t : ℕ} (h : Stretch p q) (h1 : p.ts ≤ t) (h2 : t ≤ q.ts) (ht : t < 2 ^ 127) :
    Succeeds (supplyAt s p t) := by
  have hfloor := Nat.div_mul_le_self p.ts WEEK
  have hweek := h.week
  have hmax : WEEK ≤ MAX_TIME := by decide
  have hover : p.ts / WEEK * WEEK + WEEK < 2 ^ 256 := by
    have : WEEK = 604800 := rfl
    omega
  have hti : (if t < p.ts / WEEK * WEEK + WEEK then t else p.ts / WEEK * WEEK + WEEK) = t := by
    split_ifs <;> omega
  have hdt : asInt128 ((t - p.ts : ℕ) : ℤ) = ((t - p.ts : ℕ) : ℤ) := asInt128_week (by omega)
  have hdt0 : (0 : ℤ) ≤ ((t - p.ts : ℕ) : ℤ) := Int.natCast_nonneg _
  have hle : p.slope * ((t - p.ts : ℕ) : ℤ) ≤ p.slope * ((q.ts - p.ts : ℕ) : ℤ) :=
    mul_le_mul_of_nonneg_left (by omega) h.slope
  have h0 := mul_nonneg h.slope hdt0
  have hdecay : IsInt128 (p.slope * ((t - p.ts : ℕ) : ℤ)) := isInt128_of_le h0 hle h.decay
  have hbias : IsInt128 (p.bias - p.slope * ((t - p.ts : ℕ) : ℤ)) :=
    ⟨h.left.1.trans (by linarith), lt_of_le_of_lt (by linarith) h.bias.2⟩
  rw [supplyAt, supplyWeeks, uadd, fits, if_pos hover, ok_bind]
  dsimp only
  rw [hti, usub, if_pos h1, ok_bind, hdt, i128, if_pos hdecay, ok_bind, i128, if_pos hbias, ok_bind, if_pos rfl]
  exact succeeds_pure _

/-- a point without power is carried forward while no slope is scheduled -/
theorem supplyWeeks_quiet {sc : ℕ → ℤ} {t : ℕ} (ht : t < 2 ^ 127) (hquiet : ∀ w, w ≤ t → sc w = 0) (rounds ti : ℕ)
    (p : Point) (hbias : p.bias = 0) (hslope : p.slope = 0) (hti : ti ≤ p.ts) (hweek : p.ts ≤ ti + WEEK) (hpt : p.ts ≤ t) :
    supplyWeeks sc t rounds ti p = .ok 0 := by
  induction rounds generalizing ti p with
  | zero => rw [supplyWeeks, hbias]
  | succ rounds ih =>
    have hzero : IsInt128 0 := by decide
    have hover : ti + WEEK < 2 ^ 256 := by
      have : WEEK = 604800 := rfl
      omega
    rw [supplyWeeks, uadd, fits, if_pos hover, ok_bind]
    dsimp only
    have hle : p.ts ≤ if t < ti + WEEK then t else ti + WEEK := by
      split_ifs <;> omega
    rw [usub, if_pos hle, ok_bind, hslope, zero_mul, i128, if_pos hzero, ok_bind, hbias, sub_zero, i128, if_pos hzero,
      ok_bind]
    by_cases hlast : t < ti + WEEK
    · rw [if_pos hlast, if_pos rfl]
      rfl
    · rw [if_neg hlast, if_neg hlast]
      split_ifs
      · rfl
      · rw [hquiet _ (not_lt.1 hlast), add_zero, i128, if_pos hzero, ok_bind]
        exact ih _ _ rfl rfl le_rfl (Nat.le_add_right _ _) (not_lt.1 hlast)

/-- **The total supply at a past block** does not fail. -/
theorem totalSupplyAt_succeeds (hc : GlobalClock env s) (hg : Good s) (hw : NoWrap s)
    (h : OnLine s env b (findBlockEpoch s b s.epoch)) (hb : b ≤ env.number) (hts : env.timestamp < 2 ^ 127)
    (hnum : env.number < 2 ^ 128) : Succeeds (totalSupplyAt s env b) := by
  rw [totalSupplyAt_eq h hb hts hnum]
  generalize findBlockEpoch s b s.epoch = e at h ⊢
  have hstart : (s.pointHistory e).ts ≤ timeBetween (s.pointHistory e) (pointAhead s env e) b := Nat.le_add_right _ _
  have hend := timeBetween_le h.ts h.ahead
  have hnow := h.now.1
  generalize timeBetween (s.pointHistory e) (pointAhead s env e) b = t at hstart hend ⊢
  by_cases he : e < s.epoch
  · rw [pointAhead, if_pos he] at hend hnow
    rcases Nat.eq_zero_or_pos e with rfl | hpos
    · -- up to the first checkpoint there is no power
      have hbefore : ∀ w, w ≤ t → s.slopeChanges w = 0 := fun w hw => hc.quiet w (.inr (hw.trans hend))
      have hquiet := supplyWeeks_quiet (by omega) hbefore 255 ((s.pointHistory 0).ts / WEEK * WEEK) (s.pointHistory 0)
        hc.first.1 hc.first.2 (Nat.div_mul_le_self _ _) (Nat.lt_div_mul_add week_pos).le hstart
      rw [supplyAt, hquiet, ok_bind]
      exact succeeds_pure _
    · exact supplyAt_stretch (hc.stretches e hpos he) hstart hend (by omega)
  · obtain rfl : e = s.epoch := by
      have := h.le_epoch
      omega
    exact ⟨_, totalSupplyAtT_eq hg.supply hw hstart (by omega)⟩

/-- **Views by block.** After every run of calls in blocks that follow each other, the views by block and by time agree at
the present. If every checkpoint is within the reach of the fill, the time of no past block is before a point it is
measured from, and if no amount wraps and no decay overflows, no query of a past block fails. -/
theorem block_views (cfg : Config) (env₀ : Env) (erc20 : Address → ERC20) (shady : Address) (calls : List (Env × Call))
    (hfresh : ∀ token spender, (erc20 token).allowance cfg.self spender = 0) (env : Env)
    (hblocks : InBlocks env₀ calls env) (hts : env.timestamp < 2 ^ 127) (hnum : env.number < 2 ^ 128)
    (hepoch : (run (execIn cfg) (deploy env₀ erc20 shady) calls).epoch < 2 ^ 128) :
    let s := run (execIn cfg) (deploy env₀ erc20 shady) calls
    totalSupplyAt s env env.number = totalSupplyAtT s env.timestamp ∧
      (∀ id, balanceOfAtNFT s env id env.number = balanceOfNFTAt s id env.timestamp) ∧
      (AlongOk (execIn cfg) InTime (deploy env₀ erc20 shady) calls →
        ∀ b, (s.pointHistory 0).blk ≤ b → b ≤ env.number →
          Succeeds (secondsToBlock s env b (findBlockEpoch s b s.epoch)) ∧
          (∀ id, ∃ t, timeOfBlock s env b = .ok t ∧ (userPointAtBlock s id b).ts ≤ t) ∧
          (NoWrap s → (∀ id k, k ≤ s.userPointEpoch id → (s.userPointHistory id k).slope * env.timestamp < 2 ^ 127) →
            Succeeds (totalSupplyAt s env b) ∧ ∀ id, Succeeds (balanceOfAtNFT s env id b))) := by
  intro s
  have hc : Clocked env s := run_clocked hblocks shady hfresh
  refine ⟨totalSupplyAt_now hc.global hepoch hts hnum, balanceOfAtNFT_now hc hepoch hts hnum, fun htime b hfirst hb => ?_⟩
  have htw : Twinned s := run_twinned hblocks shady hfresh htime
  have hline := findBlockEpoch_onLine hc.global hepoch hfirst hb
  have hend := timeBetween_le hline.ts hline.ahead
  have hnow := hline.now.1
  refine ⟨⟨_, secondsToBlock_eq hline hts hnum⟩, fun id => ⟨_, ?_, userPointAtBlock_le hc htw hline id⟩,
    fun hw hfit => ⟨?_, fun id => ?_⟩⟩
  · rw [timeOfBlock, pointSpan_eq hline, ok_bind]
    exact blockTime_eq hline hts hnum
  · exact totalSupplyAt_succeeds hc.global (run_good env₀ erc20 shady htime hw) hw hline hb hts hnum
  · rw [balanceOfAtNFT_eq hline hb hts hnum]
    have hle := userPointAtBlock_le hc htw hline id
    obtain ⟨k, hk, hlast⟩ := userPointAtBlock_last (b := b) (hc.users id)
    rw [hk] at hle ⊢
    have hslope := hw id k hlast.le_hi
    obtain ⟨hbias, hpos⟩ := (hc.users id).lines k hlast.le_hi
    refine powerLeft_succeeds hle (by omega) hslope ?_ hbias (hpos hslope)
    refine lt_of_le_of_lt (mul_le_mul_of_nonneg_left ?_ hslope) (hfit id k hlast.le_hi)
    omega

/-- one lock two blocks after the deployment, seen from the next week: its power now, and at every block since -/
theorem block_views_nextWeek :
    let s := run (execIn exampleConfig) (deploy (exampleEnv (100 * WEEK - 24)) exampleTokens 7) [oneLock]
    let env := exampleEnv (101 * WEEK + 5)
    totalSupplyAt s env env.number = totalSupplyAtT s env.timestamp ∧
      (∀ id, balanceOfAtNFT s env id env.number = balanceOfNFTAt s id env.timestamp) ∧
      ∀ b, (s.pointHistory 0).blk ≤ b → b ≤ env.number →
        Succeeds (totalSupplyAt s env b) ∧ ∀ id, Succeeds (balanceOfAtNFT s env id b) := by
  intro s env
  have hslope : ∀ i k, (s.userPointHistory i k).slope = if i = 1 ∧ k = 1 then (userPoint s 1).slope else 0 :=
    slope_of_onePoint rfl
  obtain ⟨htotal, hbalance, hpast⟩ := block_views exampleConfig (exampleEnv (100 * WEEK - 24)) exampleTokens 7 [oneLock]
    exampleTokens_fresh env (by decide) (by decide) (by decide) (by decide +kernel)
  refine ⟨htotal, hbalance, fun b hfirst hb => ?_⟩
  refine (hpast ⟨fun _ => ⟨by decide, fun _ => by decide +kernel⟩, trivial⟩ b hfirst hb).2.2 (fun id k _ => ?_) fun id k _ => ?_
  · rw [hslope]
    split_ifs
    · decide +kernel
    · exact le_rfl
  · rw [hslope]
    split_ifs
    · decide +kernel
    · decide +kernel

/-- account 1 holds as much as an `int128` can and more, and lets the contract take it -/
def ampleTokens : Address → ERC20 := fun _ =>
  { balanceOf := fun a => if a = 1 then 2 ^ 128 else 0
    allowance := fun a b => if a = 1 ∧ b = 50 then 2 ^ 128 else 0
    totalSupply := 2 ^ 128 }

/-- Queries that fail. A lock 254 weeks and two seconds after a checkpoint finds a history that is filled up to one second
ago only; blocks went faster since, and the time of the block of the lock comes out before the lock. A lock of nearly
`2 ^ 127` has a slope whose decay overflows 16 weeks later. One of `2 ^ 127` wraps to a negative slope, so that the
total supply decays below all `int128` after its end. -/
theorem block_views_fail :
    (let calls : List (Env × Call) :=
        [(⟨101 * WEEK - 1, 200, 1, 99⟩, .checkpoint), (⟨355 * WEEK + 1, 201, 1, 99⟩, .createLock 7 (10 ^ 24) (4 * WEEK) (.ok true))]
      let env : Env := ⟨355 * WEEK + 101, 601, 1, 99⟩
      let s := run (execIn exampleConfig) (deploy ⟨100 * WEEK, 100, 1, 99⟩ exampleTokens 7) calls
      InBlocks ⟨100 * WEEK, 100, 1, 99⟩ calls env ∧ 355 * WEEK + 1 < 101 * WEEK - 1 + 255 * WEEK ∧
        (s.pointHistory 0).blk = 100 ∧ (balanceOfAtNFT s env 1 201).failure = some (.panic 0x11)) ∧
    (let calls : List (Env × Call) := [(exampleEnv (100 * WEEK + 24), .createLock 7 (2 ^ 127 - 1) (4 * WEEK) (.ok true))]
      let env := exampleEnv (130 * WEEK)
      let s := run (execIn exampleConfig) (deploy (exampleEnv (100 * WEEK)) ampleTokens 7) calls
      InBlocks (exampleEnv (100 * WEEK)) calls env ∧ s.lockedDerivedAmount 1 = 2 ^ 127 - 1 ∧
        (balanceOfAtNFT s env 1 env.number).failure = some (.panic 0x11)) ∧
    (let calls : List (Env × Call) := [(exampleEnv (100 * WEEK + 24), .createLock 7 (2 ^ 127) (4 * WEEK) (.ok true))]
      let env := exampleEnv (130 * WEEK)
      let s := run (execIn exampleConfig) (deploy (exampleEnv (100 * WEEK)) ampleTokens 7) calls
      InBlocks (exampleEnv (100 * WEEK)) calls env ∧ s.lockedDerivedAmount 1 = 2 ^ 127 ∧
        (totalSupplyAt s env env.number).failure = some (.panic 0x11)) := by
  decide +kernel

end SimContracts.Ve
