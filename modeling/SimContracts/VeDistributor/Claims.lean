/-
What the supply checkpoint records and what a claim pays, in terms of the power the vote escrow's histories show.

Results:
  recordSupply_writes   the supply loop writes the boundaries between its cursors, and nothing else
  recordSupply_ok       every entry written is the total power at that boundary
  claimWeeks_ok         a claim pays increasing weeks, each for the power the NFT had at its start
-/
import SimContracts.Ve.Runs
import SimContracts.VeDistributor.Model

namespace SimContracts.VeDistributor

open Solidity Ve Search

variable {d : Dist} {ve : Ve.State}

/-! ## Power at a boundary -/

theorem asInt128_time {t ts : ℕ} (h : t < WEEKS_SIZE) : asInt128 ((t - ts : ℕ) : ℤ) = ((t - ts : ℕ) : ℤ) := by
  have hsize : WEEKS_SIZE = 10 ^ 15 := by norm_num [WEEKS_SIZE]
  refine asInt128_eq ⟨?_, ?_⟩
  · exact le_trans (by norm_num) (Int.natCast_nonneg _)
  · norm_num
    omega

theorem powerAt_ok {point : Point} {week power : ℕ} (hweek : week < WEEKS_SIZE) (h : powerAt point week = .ok power) :
    (power : ℤ) = powerOf point week := by
  simp only [powerAt, usub_bind, i128_bind, pure_ok] at h
  obtain ⟨-, -, -, rfl⟩ := h
  rw [asInt128_time hweek, mul_comm, powerOf]
  exact Int.toNat_of_nonneg (le_max_right _ _)

theorem adjustVeSupply_ok {t : ℕ} {p : Point} {supply : ℕ} (ht : t < WEEKS_SIZE)
    (h : adjustVeSupply t p.ts p.bias p.slope = .ok supply) :
    (supply : ℤ) = if t < p.ts then 0 else powerOf p t := by
  unfold adjustVeSupply at h
  split_ifs at h ⊢ with hearly
  · cases h
    rfl
  · dsimp only at h
    rw [asInt128_time ht, i128_bind] at h
    obtain ⟨-, h⟩ := h
    split_ifs at h with hover
    · cases h
      exact (max_eq_right (by omega)).symm
    · simp only [i128_bind, pure_ok] at h
      obtain ⟨-, rfl⟩ := h
      exact Int.toNat_of_nonneg (le_max_right _ _)

/-- before the first point there is no power -/
theorem powerOf_pointAt_early (hi : HistoryInv ve) {t : ℕ} (h : t < (pointAt ve t).ts) : powerOf (pointAt ve t) t = 0 := by
  have hzero : lastAt (fun k => (ve.pointHistory k).ts) t ve.epoch = 0 := by
    by_contra hne
    have := Nat.findGreatest_of_ne_zero (P := fun k => (ve.pointHistory k).ts ≤ t) rfl hne
    rw [pointAt] at h
    exact absurd this (not_le.2 h)
  rw [pointAt, hzero, powerOf, hi.start.1, hi.start.2]
  simp [positiveInt128]

theorem findTimestampEpoch_eq (hi : HistoryInv ve) (hlen : ve.epoch < 2 ^ 128) (t : ℕ) :
    ve.pointHistory (findTimestampEpoch ve t) = pointAt ve t := by
  rw [findTimestampEpoch, searchLast_eq_lastAt (.inr rfl) hlen hi.sorted]
  rfl

/-! ## The supply checkpoint -/

/-- the loop of the supply checkpoint writes the boundaries from `t` to before `t'`, and nothing else -/
structure Writes (ve : Ve.State) (upTo t t' : ℕ) (supply supply' : ℕ → ℕ) : Prop where
  weeks : ∃ n, t' = t + n * WEEK
  written : ∀ k, t + k * WEEK < t' → t + k * WEEK ≤ upTo ∧ t + k * WEEK < WEEKS_SIZE ∧
    let p := ve.pointHistory (findTimestampEpoch ve (t + k * WEEK))
    adjustVeSupply (t + k * WEEK) p.ts p.bias p.slope = .ok (supply' (t + k * WEEK))
  kept : ∀ w, (∀ k, t + k * WEEK < t' → w ≠ t + k * WEEK) → supply' w = supply w

/-- **The supply loop.** -/
theorem recordSupply_writes {upTo rounds t t' : ℕ} {supply supply' : ℕ → ℕ}
    (h : recordSupply ve upTo rounds t supply = .ok (supply', t')) : Writes ve upTo t t' supply supply' := by
  have hnone : ∀ t supply, Writes ve upTo t t supply supply := fun t supply =>
    ⟨⟨0, by simp⟩, fun k hk => absurd hk (not_lt.2 (Nat.le_add_right _ _)), fun _ _ => rfl⟩
  induction rounds generalizing t supply with
  | zero =>
    cases h
    exact hnone t' supply'
  | succ rounds ih =>
    rw [recordSupply] at h
    split_ifs at h with hstop
    · cases h
      exact hnone t' supply'
    · dsimp only at h
      obtain ⟨power, hpower, h⟩ := bind_ok.1 h
      simp only [inBounds_bind, uadd_bind] at h
      obtain ⟨hbound, -, h⟩ := h
      have hpos := week_pos
      have hrest := ih h
      obtain ⟨n, hn⟩ := hrest.weeks
      have hshift : ∀ k, t + (k + 1) * WEEK = t + WEEK + k * WEEK := fun k => by ring
      refine ⟨⟨n + 1, by rw [hn, hshift]⟩, fun k hk => ?_, fun w hw => ?_⟩
      · cases k with
        | zero =>
          -- the first boundary is written in this round only
          have hvalue : supply' t = power := by
            rw [hrest.kept t fun k _ => by omega, Function.update_self]
          rw [Nat.zero_mul, Nat.add_zero, hvalue]
          exact ⟨not_lt.1 hstop, hbound, hpower⟩
        | succ k =>
          rw [hshift] at hk ⊢
          exact hrest.written k hk
      · rw [hrest.kept w fun k hk => by rw [← hshift] at hk ⊢; exact hw (k + 1) hk, Function.update_of_ne]
        simpa using hw 0 (by omega)

/-- what the supply checkpoint records between two cursors -/
structure Recorded (ve : Ve.State) (upTo t t' : ℕ) (supply supply' : ℕ → ℕ) : Prop where
  le : t ≤ t'
  aligned : t' % WEEK = 0
  written : ∀ w, w % WEEK = 0 → t ≤ w → w < t' → w ≤ upTo ∧ (supply' w : ℤ) = powerOf (pointAt ve w) w
  kept : ∀ w, ¬ (w % WEEK = 0 ∧ t ≤ w ∧ w < t') → supply' w = supply w

/-- each boundary from an aligned cursor on is recorded with the total power -/
theorem recordSupply_ok (hi : HistoryInv ve) (hlen : ve.epoch < 2 ^ 128) {upTo rounds t t' : ℕ} {supply supply' : ℕ → ℕ}
    (ht : t % WEEK = 0) (h : recordSupply ve upTo rounds t supply = .ok (supply', t')) :
    Recorded ve upTo t t' supply supply' := by
  have hw := recordSupply_writes h
  obtain ⟨n, hn⟩ := hw.weeks
  refine ⟨by omega, by rw [hn, Nat.add_mul_mod_self_right, ht], fun w halign hfrom hto => ?_, fun w hout => ?_⟩
  · obtain ⟨k, hk⟩ := Nat.dvd_sub (Nat.dvd_of_mod_eq_zero halign) (Nat.dvd_of_mod_eq_zero ht)
    obtain rfl : w = t + k * WEEK := by rw [Nat.mul_comm, ← hk]; omega
    obtain ⟨hle, hbound, hpower⟩ := hw.written k hto
    refine ⟨hle, ?_⟩
    rw [adjustVeSupply_ok hbound hpower, findTimestampEpoch_eq hi hlen]
    split_ifs with hearly
    · exact (powerOf_pointAt_early hi hearly).symm
    · rfl
  · refine hw.kept w fun k hk heq => hout ⟨?_, ?_, ?_⟩
    · rw [heq, Nat.add_mul_mod_self_right, ht]
    · omega
    · omega

/-! ## One claim -/

/-- the loop of a claim stands on a point of the NFT that is not after the week: it is about to pass it, or it has, and
then looks at the next one -/
structure Standing (ve : Ve.State) (id maxUserEpoch : ℕ) (c : ClaimLoop) : Prop where
  pos : 0 < c.userEpoch
  point :
    (c.userEpoch ≤ maxUserEpoch ∧ c.userPoint = ve.userPointHistory id c.userEpoch ∧ c.userPoint.ts ≤ c.weekCursor) ∨
    (1 < c.userEpoch ∧ c.userEpoch ≤ maxUserEpoch + 1 ∧ c.oldUserPoint = ve.userPointHistory id (c.userEpoch - 1) ∧
      c.oldUserPoint.ts ≤ c.weekCursor ∧
      c.userPoint = if maxUserEpoch < c.userEpoch then ⟨0, 0, 0, 0⟩ else ve.userPointHistory id c.userEpoch)

/-- passing a point -/
theorem Standing.next {id maxUserEpoch : ℕ} {c : ClaimLoop} (h : Standing ve id maxUserEpoch c)
    (hts : c.userPoint.ts ≤ c.weekCursor) (hle : c.userEpoch ≤ maxUserEpoch) :
    Standing ve id maxUserEpoch (nextUserPoint ve id maxUserEpoch c) := by
  have hpoint : c.userPoint = ve.userPointHistory id c.userEpoch := by
    rcases h.point with ⟨-, hp, -⟩ | ⟨-, -, -, -, hp⟩
    · exact hp
    · rwa [if_neg (by omega)] at hp
  have hpos := h.pos
  refine ⟨Nat.succ_pos _, .inr ⟨?_, ?_, ?_, hts, rfl⟩⟩
  · show 1 < c.userEpoch + 1
    omega
  · show c.userEpoch + 1 ≤ maxUserEpoch + 1
    omega
  · exact hpoint

/-- paying a week -/
theorem Standing.pay {id maxUserEpoch : ℕ} {c : ClaimLoop} (h : Standing ve id maxUserEpoch c) (amount : ℕ)
    (ps : List Portion) : Standing ve id maxUserEpoch
      { c with weekCursor := c.weekCursor + WEEK, toDistribute := amount, portions := ps } := by
  refine ⟨h.pos, ?_⟩
  rcases h.point with ⟨h1, h2, h3⟩ | ⟨h1, h2, h3, h4, h5⟩
  · exact .inl ⟨h1, h2, h3.trans (Nat.le_add_right _ _)⟩
  · exact .inr ⟨h1, h2, h3, h4.trans (Nat.le_add_right _ _), h5⟩

/-- the points of every NFT are in the order of time -/
def UserSorted (ve : Ve.State) : Prop :=
  ∀ i j k, j ≤ k → k ≤ ve.userPointEpoch i → (ve.userPointHistory i j).ts ≤ (ve.userPointHistory i k).ts

/-- where no further point can be passed, the one passed last is the last one up to the week -/
theorem Standing.userPointAt_eq {id : ℕ} {c : ClaimLoop} (h : Standing ve id (ve.userPointEpoch id) c)
    (hsort : UserSorted ve) (hstop : ¬ (c.userPoint.ts ≤ c.weekCursor ∧ c.userEpoch ≤ ve.userPointEpoch id)) :
    c.oldUserPoint = userPointAt ve id c.weekCursor := by
  rcases h.point with ⟨hle, -, hts⟩ | ⟨hone, hle, hold, hts, hpoint⟩
  · exact absurd ⟨hts, hle⟩ hstop
  · rw [hold, userPointAt, lastAt_eq (m := c.userEpoch - 1) (by omega)]
    · intro _
      rwa [hold] at hts
    · intro k h1 h2
      have hlt : c.weekCursor < c.userPoint.ts := by
        by_contra hcon
        exact hstop ⟨not_lt.1 hcon, by omega⟩
      rw [hpoint, if_neg (by omega)] at hlt
      exact hlt.trans_le (hsort id _ k (by omega) h2)

/-- portions of one NFT for weeks from one cursor up to another, in order, each for its power at that week -/
structure Pays (d : Dist) (ve : Ve.State) (id lastTokenTime : ℕ) (src dst : ℕ) (ps : List Portion) : Prop where
  le : src ≤ dst
  each : ∀ p ∈ ps, p.id = id ∧ src ≤ p.week ∧ p.week < dst ∧ p.week < lastTokenTime ∧ d.veSupply p.week ≠ 0 ∧
    (p.power : ℤ) = userPower ve id p.week ∧
    p.amount = p.power * d.tokensPerWeek p.week / d.veSupply p.week
  increasing : ps.Pairwise fun p q => p.week < q.week
  weeks : ∃ n, dst = src + n * WEEK ∧ ps.map (·.week) = (List.range n).map fun k => src + k * WEEK

theorem Pays.nil (id lastTokenTime week : ℕ) : Pays d ve id lastTokenTime week week [] :=
  ⟨le_rfl, by simp, .nil, 0, by simp, rfl⟩

theorem Pays.cons {id lastTokenTime dst : ℕ} {p : Portion} {ps : List Portion}
    (hp : p.id = id ∧ p.week < lastTokenTime ∧ d.veSupply p.week ≠ 0 ∧ (p.power : ℤ) = userPower ve id p.week ∧
      p.amount = p.power * d.tokensPerWeek p.week / d.veSupply p.week)
    (h : Pays d ve id lastTokenTime (p.week + WEEK) dst ps) : Pays d ve id lastTokenTime p.week dst (p :: ps) := by
  have hle := h.le
  have hpos := week_pos
  obtain ⟨h1, h2, h3, h4, h5⟩ := hp
  refine ⟨by omega, ?_, ?_, ?_⟩
  · intro q hq
    rcases List.mem_cons.1 hq with rfl | hq
    · exact ⟨h1, le_rfl, by omega, h2, h3, h4, h5⟩
    · obtain ⟨g1, g2, g⟩ := h.each q hq
      exact ⟨g1, by omega, g⟩
  · refine List.pairwise_cons.2 ⟨fun q hq => ?_, h.increasing⟩
    obtain ⟨-, g2, -⟩ := h.each q hq
    omega
  · obtain ⟨n, hn, hweeks⟩ := h.weeks
    refine ⟨n + 1, by rw [hn, Nat.add_mul]; omega, ?_⟩
    rw [List.map_cons, hweeks, List.range_succ_eq_map, List.map_cons, List.map_map, Nat.zero_mul, Nat.add_zero]
    congr 1
    refine List.map_congr_left fun k _ => ?_
    rw [Function.comp_apply, Nat.succ_mul]
    omega

theorem payWeek_ok {id power : ℕ} {c c' : ClaimLoop} (h : payWeek d id power c = .ok c') :
    c.weekCursor < WEEKS_SIZE ∧ d.veSupply c.weekCursor ≠ 0 ∧
      c' = { c with
        weekCursor := c.weekCursor + WEEK
        toDistribute := c.toDistribute + power * d.tokensPerWeek c.weekCursor / d.veSupply c.weekCursor
        portions := c.portions ++
          [⟨id, c.weekCursor, power, power * d.tokensPerWeek c.weekCursor / d.veSupply c.weekCursor⟩] } := by
  simp only [payWeek, inBounds_bind, umul_bind, udiv_bind, uadd_bind, pure_ok] at h
  obtain ⟨h1, -, h2, -, -, rfl⟩ := h
  exact ⟨h1, by omega, rfl⟩

/-- **The loop of a claim.** It pays increasing weeks, each for the power at that week, and stays on its points. -/
theorem claimWeeks_ok (hsort : UserSorted ve) {id lastTokenTime rounds : ℕ} {c c' : ClaimLoop}
    (hc : Standing ve id (ve.userPointEpoch id) c)
    (h : claimWeeks d ve id lastTokenTime (ve.userPointEpoch id) rounds c = .ok c') :
    Standing ve id (ve.userPointEpoch id) c' ∧
      ∃ ps, c'.portions = c.portions ++ ps ∧ Pays d ve id lastTokenTime c.weekCursor c'.weekCursor ps ∧
        c'.toDistribute = c.toDistribute + (ps.map (·.amount)).sum := by
  have hnone : ∀ c : ClaimLoop, ∃ ps, c.portions = c.portions ++ ps ∧ Pays d ve id lastTokenTime c.weekCursor c.weekCursor ps ∧
      c.toDistribute = c.toDistribute + (ps.map (·.amount)).sum :=
    fun _ => ⟨[], by simp, .nil .., by simp⟩
  induction rounds generalizing c with
  | zero =>
    cases h
    exact ⟨hc, hnone _⟩
  | succ rounds ih =>
    rw [claimWeeks] at h
    split_ifs at h with hdone hpass
    · cases h
      exact ⟨hc, hnone _⟩
    · obtain ⟨hc', ps, hps, hpays, hsum⟩ := ih (hc.next hpass.1 hpass.2) h
      exact ⟨hc', ps, hps, hpays, hsum⟩
    · obtain ⟨power, hpower, h⟩ := bind_ok.1 h
      split_ifs at h
      · cases h
        exact ⟨hc, hnone _⟩
      · obtain ⟨e, he, h⟩ := bind_ok.1 h
        obtain ⟨hbound, hsupply, rfl⟩ := payWeek_ok he
        obtain ⟨hc', ps, hps, hpays, hsum⟩ := ih (hc.pay _ _) h
        have hfirst : (power : ℤ) = userPower ve id c.weekCursor := by
          rw [powerAt_ok hbound hpower, hc.userPointAt_eq hsort hpass]
          rfl
        let p : Portion := ⟨id, c.weekCursor, power, power * d.tokensPerWeek c.weekCursor / d.veSupply c.weekCursor⟩
        have hpays' : Pays d ve id lastTokenTime p.week c'.weekCursor (p :: ps) :=
          Pays.cons ⟨rfl, not_le.1 hdone, hsupply, hfirst, rfl⟩ hpays
        refine ⟨hc', p :: ps, ?_, hpays', ?_⟩
        · rw [hps, List.append_assoc, List.singleton_append]
        · rw [hsum, List.map_cons, List.sum_cons, Nat.add_assoc]

theorem firstUserEpoch_spec (d : Dist) (ve : Ve.State) (id : ℕ) (hpos : ve.userPointEpoch id ≠ 0)
    (hcursor : d.timeCursorOf id ≠ 0 → max 1 (d.userEpochOf id) ≤ ve.userPointEpoch id) :
    0 < firstUserEpoch d ve id ∧ firstUserEpoch d ve id ≤ ve.userPointEpoch id ∧
      (d.timeCursorOf id ≠ 0 → firstUserEpoch d ve id = max 1 (d.userEpochOf id)) := by
  have hsearch : searchLast (fun k => (ve.userPointHistory id k).ts) d.startTime 2 128 0 (ve.userPointEpoch id) ≤ _ :=
    searchLast_le (.inr rfl) 128 0 _ (Nat.zero_le _)
  unfold firstUserEpoch findTimestampUserEpoch
  by_cases h0 : d.timeCursorOf id = 0
  · simp only [if_pos h0]
    split_ifs
    · exact ⟨Nat.one_pos, by omega, fun h => absurd h0 h⟩
    · exact ⟨by omega, hsearch, fun h => absurd h0 h⟩
  · have := hcursor h0
    simp only [if_neg h0]
    split_ifs <;> refine ⟨by omega, by omega, fun _ => by omega⟩

/-- a claim starts from a point of the NFT, at or after it -/
theorem firstWeekCursor_spec {id : ℕ} (hpos : ve.userPointEpoch id ≠ 0)
    (hcursor : d.timeCursorOf id ≠ 0 → max 1 (d.userEpochOf id) ≤ ve.userPointEpoch id ∧
      (ve.userPointHistory id (max 1 (d.userEpochOf id))).ts ≤ d.timeCursorOf id) :
    d.timeCursorOf id ≤ firstWeekCursor d id (ve.userPointHistory id (firstUserEpoch d ve id)) ∧
      (ve.userPointHistory id (firstUserEpoch d ve id)).ts ≤
        firstWeekCursor d id (ve.userPointHistory id (firstUserEpoch d ve id)) := by
  obtain ⟨-, -, heq⟩ := firstUserEpoch_spec d ve id hpos fun h0 => (hcursor h0).1
  generalize firstUserEpoch d ve id = e at *
  unfold firstWeekCursor
  split_ifs with h0
  · have := Nat.lt_div_mul_add (a := (ve.userPointHistory id e).ts + WEEK - 1) week_pos
    have := week_pos
    exact ⟨by omega, by omega⟩
  · refine ⟨le_rfl, ?_⟩
    rw [heq h0]
    exact (hcursor h0).2

/-- the week a claim starts from, not before the distributor itself -/
def claimStart (d : Dist) (ve : Ve.State) (id : ℕ) : ℕ :=
  max (firstWeekCursor d id (ve.userPointHistory id (firstUserEpoch d ve id))) d.startTime

/-- what a claim leaves: the weeks it paid, and where the next one starts -/
structure ClaimOk (d : Dist) (ve : Ve.State) (id lastTokenTime : ℕ) (r : ClaimCalculationResult) : Prop where
  failed : r.success = false → r.portions = []
  used : r.success = true → 0 < ve.userPointEpoch id
  pays : r.success = true → d.timeCursorOf id ≤ claimStart d ve id ∧
    Pays d ve id lastTokenTime (claimStart d ve id) r.weekCursor r.portions
  total : r.toDistribute = (r.portions.map (·.amount)).sum
  cursor : r.success = true → max 1 r.userEpoch ≤ ve.userPointEpoch id ∧
    (ve.userPointHistory id (max 1 r.userEpoch)).ts ≤ r.weekCursor

/-- **One claim.** It pays weeks from the NFT's cursor on and moves the cursor past them. -/
theorem calculateClaim_ok (hsort : UserSorted ve) {id lastTokenTime : ℕ} {r : ClaimCalculationResult}
    (hcursor : d.timeCursorOf id ≠ 0 → max 1 (d.userEpochOf id) ≤ ve.userPointEpoch id ∧
      (ve.userPointHistory id (max 1 (d.userEpochOf id))).ts ≤ d.timeCursorOf id)
    (h : calculateClaim d ve id lastTokenTime = .ok r) : ClaimOk d ve id lastTokenTime r := by
  have hnone : ClaimOk d ve id lastTokenTime noClaim :=
    ⟨fun _ => rfl, fun h => absurd h (by decide), fun h => absurd h (by decide), rfl, fun h => absurd h (by decide)⟩
  unfold calculateClaim at h
  dsimp only at h
  split_ifs at h with hempty hdone
  · cases h
    exact hnone
  · cases h
    exact hnone
  · obtain ⟨hpos, hle, heq⟩ := firstUserEpoch_spec d ve id hempty fun h0 => (hcursor h0).1
    have hclaimStart : claimStart d ve id =
      max (firstWeekCursor d id (ve.userPointHistory id (firstUserEpoch d ve id))) d.startTime := rfl
    have hstart := firstWeekCursor_spec hempty hcursor
    generalize firstUserEpoch d ve id = e at *
    unfold calculateToDistribute at h
    obtain ⟨c, hc, h⟩ := bind_ok.1 h
    simp only [usub_bind, pure_ok] at h
    obtain ⟨hone, rfl⟩ := h
    have hmax := le_max_left (firstWeekCursor d id (ve.userPointHistory id e)) d.startTime
    obtain ⟨hstand, ps, hps, hpays, hsum⟩ := claimWeeks_ok hsort ⟨hpos, .inl ⟨hle, rfl, hstart.2.trans hmax⟩⟩ hc
    rw [List.nil_append] at hps
    rw [← hclaimStart] at hpays hmax
    refine ⟨fun h => Bool.noConfusion h, fun _ => Nat.pos_of_ne_zero hempty, fun _ => ⟨hstart.1.trans hmax, ?_⟩, ?_,
      fun _ => ?_⟩
    · rw [hps]
      exact hpays
    · rw [hps, hsum, Nat.zero_add]
    · dsimp only
      rcases hstand.point with ⟨h1, h2, h3⟩ | ⟨h1, h2, h3, h4, -⟩
      · refine ⟨by omega, (hsort id _ c.userEpoch (by omega) h1).trans ?_⟩
        rw [← h2]
        exact h3
      · have hlast : max 1 (min (ve.userPointEpoch id) (c.userEpoch - 1)) = c.userEpoch - 1 := by omega
        rw [hlast, ← h3]
        exact ⟨by omega, h4⟩

end SimContracts.VeDistributor
