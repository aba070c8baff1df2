/-
Claiming does not depend on the schedule: however the claims for an NFT are split over calls and interleaved with the
other operations, what it has been paid is its share of every week from its first one up to its cursor, once each.

A claim resumes from a week cursor and a user epoch that may be behind the cursor; the loop passes the points in
between before it pays, so it pays each week for the last point up to it. What a paid week was paid for does not change
any more: later points are recorded after the week, tokens are added to later weeks only, and its supply is recorded.

Results:
  claimAndPay_amount      what a claim transfers is the sum of the portions it adds to the books
  exec_schedule           one call keeps the books of claims
-/
import SimContracts.VeDistributor.Weeks

namespace SimContracts.VeDistributor

open Solidity Ve Search

variable {cfg : Config} {self : Address} {s s' : System} {d' : Dist} {ve' : Ve.State} {env : Env} {now : ℕ}

/-! ## The specification -/

/-- what the NFT gets for a week: its power at the start of the week, as a share of the supply -/
def owed (s : System) (id w : ℕ) : Portion :=
  let power := (userPower s.ve id w).toNat
  ⟨id, w, power, power * s.dist.tokensPerWeek w / s.dist.veSupply w⟩

/-- the point the first claim starts from: the last one up to the start of the distributor, or the first one -/
def firstUsablePoint (s : System) (id : ℕ) : Point :=
  s.ve.userPointHistory id (max 1
    (lastAt (fun k => (s.ve.userPointHistory id k).ts) s.dist.startTime (s.ve.userPointEpoch id)))

/-- a time rounded up to a week -/
def ceilWeek (t : ℕ) : ℕ := (t + WEEK - 1) / WEEK * WEEK

/-- the first week an NFT can be paid for -/
def firstWeek (s : System) (id : ℕ) : ℕ := max s.dist.startTime (ceilWeek (firstUsablePoint s id).ts)

theorem ceilWeek_le {t w : ℕ} (hw : w % WEEK = 0) (h : t ≤ w) : ceilWeek t ≤ w := by
  have hpos := week_pos
  have hdiv : w / WEEK * WEEK = w := Nat.div_mul_cancel (Nat.dvd_of_mod_eq_zero hw)
  have hlt : (t + WEEK - 1) / WEEK < w / WEEK + 1 := by
    rw [Nat.div_lt_iff_lt_mul hpos, Nat.add_mul, hdiv]
    omega
  calc ceilWeek t ≤ w / WEEK * WEEK := Nat.mul_le_mul_right _ (Nat.le_of_lt_succ hlt)
    _ = w := hdiv

/-- points up to the start count as the start, so the first week is that of the NFT's first point -/
theorem firstWeek_eq {id : ℕ} (hstart : s.dist.startTime % WEEK = 0) (hsort : UserSorted s.ve)
    (hpos : 0 < s.ve.userPointEpoch id) {e : ℕ} (he : 1 ≤ e) (hle : e ≤ s.ve.userPointEpoch id)
    (hts : e = 1 ∨ (s.ve.userPointHistory id e).ts ≤ s.dist.startTime) :
    firstWeek s id = max s.dist.startTime (ceilWeek (s.ve.userPointHistory id e).ts) := by
  have hfirst : ∀ k, 1 ≤ k → k ≤ s.ve.userPointEpoch id →
      (k = 1 ∨ (s.ve.userPointHistory id k).ts ≤ s.dist.startTime) →
      max s.dist.startTime (ceilWeek (s.ve.userPointHistory id k).ts) =
        max s.dist.startTime (ceilWeek (s.ve.userPointHistory id 1).ts) := by
    intro k hk hkle hkts
    rcases hkts with rfl | hkts
    · rfl
    · have hone := (hsort id 1 k hk hkle).trans hkts
      rw [max_eq_left (ceilWeek_le hstart hkts), max_eq_left (ceilWeek_le hstart hone)]
  have hlast := lastAt_le (fun k => (s.ve.userPointHistory id k).ts) s.dist.startTime (s.ve.userPointEpoch id)
  rw [firstWeek, firstUsablePoint, hfirst e he hle hts]
  refine hfirst _ (le_max_left _ _) (by omega) ?_
  by_cases h0 : lastAt (fun k => (s.ve.userPointHistory id k).ts) s.dist.startTime (s.ve.userPointEpoch id) = 0
  · exact .inl (by omega)
  · refine .inr ?_
    rw [max_eq_right (by omega)]
    exact Nat.findGreatest_of_ne_zero (P := fun k => (s.ve.userPointHistory id k).ts ≤ s.dist.startTime) rfl h0

/-! ## The invariant -/

/-- points of NFTs are recorded in the order of time, up to `now` -/
structure PointsUntil (now : ℕ) (ve : Ve.State) : Prop where
  sorted : UserSorted ve
  until_now : ∀ i k, 1 ≤ k → k ≤ ve.userPointEpoch i → (ve.userPointHistory i k).ts ≤ now
  zero : ∀ i, (ve.userPointHistory i 0).ts = 0

/-- the books of claims at time `now` -/
structure Schedule (now : ℕ) (s : System) : Prop where
  points : PointsUntil now s.ve
  start : s.dist.startTime % WEEK = 0
  tokenTime : s.dist.lastTokenTime ≤ s.dist.startTime ∨ s.dist.lastTokenTime ≤ now
  supply : ∀ w, s.dist.veSupply w ≠ 0 → w < s.dist.timeCursor
  /-- no portion before the first claim -/
  unclaimed : ∀ id, s.dist.timeCursorOf id = 0 → s.paid.filter (·.id = id) = []
  cursor : ∀ id, s.dist.timeCursorOf id ≠ 0 → max 1 (s.dist.userEpochOf id) ≤ s.ve.userPointEpoch id ∧
    (s.ve.userPointHistory id (max 1 (s.dist.userEpochOf id))).ts ≤ s.dist.timeCursorOf id
  claimed : ∀ id, s.dist.timeCursorOf id ≠ 0 → ∃ n, s.dist.timeCursorOf id = firstWeek s id + n * WEEK ∧
    s.paid.filter (·.id = id) = (List.range n).map fun k => owed s id (firstWeek s id + k * WEEK)
  /-- what was paid is final -/
  final : ∀ p ∈ s.paid, s.dist.startTime ≤ p.week ∧ p.week < s.dist.lastTokenTime / WEEK * WEEK ∧
    s.dist.veSupply p.week ≠ 0

/-- a paid week is over -/
theorem Schedule.week_lt (h : Schedule now s) {p : Portion} (hp : p ∈ s.paid) : p.week < now := by
  obtain ⟨h1, h2, -⟩ := h.final p hp
  have := Nat.div_mul_le_self s.dist.lastTokenTime WEEK
  rcases h.tokenTime with ht | ht <;> omega

theorem Schedule.mono {t t' : ℕ} (hle : t ≤ t') (h : Schedule t s) : Schedule t' s :=
  { h with
    points := ⟨h.points.sorted, fun i k h1 h2 => (h.points.until_now i k h1 h2).trans hle, h.points.zero⟩
    tokenTime := h.tokenTime.imp_right fun h1 => h1.trans hle }

/-- the weeks of an NFT that are paid are weeks of portions -/
theorem mem_paid {id n k : ℕ}
    (hn : s.paid.filter (·.id = id) = (List.range n).map fun k => owed s id (firstWeek s id + k * WEEK)) (hk : k < n) :
    ∃ p ∈ s.paid, p.week = firstWeek s id + k * WEEK := by
  have hmem : owed s id (firstWeek s id + k * WEEK) ∈ s.paid.filter (·.id = id) := by
    rw [hn]
    exact List.mem_map.2 ⟨k, List.mem_range.2 hk, rfl⟩
  exact ⟨_, (List.mem_filter.1 hmem).1, rfl⟩

/-! ## The vote escrow moves on -/

theorem pointsUntil_extends {ve ve' : Ve.State} {t : ℕ} (hext : Extends now ve ve') (ht : t ≤ now)
    (h : PointsUntil t ve) : PointsUntil now ve' := by
  have hle : ∀ i k, 1 ≤ k → k ≤ ve'.userPointEpoch i → (ve'.userPointHistory i k).ts ≤ now := by
    intro i k h1 h2
    rcases le_or_gt k (ve.userPointEpoch i) with hk | hk
    · rw [hext.userPoints i k hk]
      exact (h.until_now i k h1 hk).trans ht
    · exact (hext.newPoints i k hk h2).le
  have hzero : ∀ i, (ve'.userPointHistory i 0).ts = 0 := fun i => by rw [hext.userPoints i 0 (Nat.zero_le _), h.zero]
  refine ⟨fun i j k hjk hk => ?_, hle, hzero⟩
  rcases le_or_gt k (ve.userPointEpoch i) with hold | hnew
  · rw [hext.userPoints i k hold, hext.userPoints i j (hjk.trans hold)]
    exact h.sorted i j k hjk hold
  · rw [hext.newPoints i k hnew hk]
    rcases Nat.eq_zero_or_pos j with rfl | hj
    · rw [hzero]
      exact Nat.zero_le _
    · exact hle i j hj (hjk.trans hk)

/-- the first week of an NFT with a point stays its first week -/
theorem firstWeek_extends {t : ℕ} (hext : Extends now s.ve ve') (ht : t ≤ now) (h : PointsUntil t s.ve)
    (hstart : s.dist.startTime % WEEK = 0) {id : ℕ} (hpos : 0 < s.ve.userPointEpoch id) :
    firstWeek { s with ve := ve' } id = firstWeek s id := by
  have hpos' : 0 < ve'.userPointEpoch id := hpos.trans_le (hext.userEpoch_le id)
  have hnew := firstWeek_eq (s := { s with ve := ve' }) hstart (pointsUntil_extends hext ht h).sorted hpos' le_rfl hpos' (.inl rfl)
  have hold := firstWeek_eq hstart h.sorted hpos le_rfl hpos (.inl rfl)
  rw [hnew, hold]
  show max s.dist.startTime (ceilWeek (ve'.userPointHistory id 1).ts) = _
  rw [hext.userPoints id 1 hpos]

theorem Schedule.ve {t : ℕ} (h : Schedule t s) (hext : Extends now s.ve ve') (ht : t ≤ now) :
    Schedule now { s with ve := ve' } := by
  have hused : ∀ id, s.dist.timeCursorOf id ≠ 0 → 0 < s.ve.userPointEpoch id := fun id h0 => by
    have := (h.cursor id h0).1
    omega
  refine ⟨pointsUntil_extends hext ht h.points, h.start, h.tokenTime.imp_right fun h1 => h1.trans ht, h.supply, h.unclaimed,
    fun id h0 => ?_, fun id h0 => ?_, h.final⟩
  · obtain ⟨h1, h2⟩ := h.cursor id h0
    refine ⟨h1.trans (hext.userEpoch_le id), ?_⟩
    show (ve'.userPointHistory id _).ts ≤ _
    rw [hext.userPoints id _ h1]
    exact h2
  · obtain ⟨n, hn, hpaid⟩ := h.claimed id h0
    have hfirst := firstWeek_extends hext ht h.points h.start (hused id h0)
    refine ⟨n, by rw [hfirst]; exact hn, ?_⟩
    show s.paid.filter (·.id = id) = _
    rw [hpaid, hfirst]
    -- the powers at weeks that are over stay
    refine List.map_congr_left fun k hk => ?_
    obtain ⟨p, hp, hweek⟩ := mem_paid hpaid (List.mem_range.1 hk)
    have hlt : firstWeek s id + k * WEEK < now := by
      rw [← hweek]
      exact (h.week_lt hp).trans_le ht
    simp only [owed, hext.userPower hlt id]

/-! ## The distributor moves on -/

/-- what was paid is still owed when the distributor changes neither the tokens nor the supply of a paid week -/
theorem Schedule.dist (h : Schedule now s) (hstart : d'.startTime = s.dist.startTime)
    (hcursor : d'.timeCursorOf = s.dist.timeCursorOf) (hepoch : d'.userEpochOf = s.dist.userEpochOf)
    (htime : d'.lastTokenTime = s.dist.lastTokenTime ∨ s.dist.lastTokenTime ≤ d'.lastTokenTime ∧ d'.lastTokenTime ≤ now)
    (hsupply : ∀ w, d'.veSupply w ≠ 0 → w < d'.timeCursor)
    (hpaid : ∀ p ∈ s.paid, d'.veSupply p.week = s.dist.veSupply p.week ∧
      d'.tokensPerWeek p.week = s.dist.tokensPerWeek p.week) :
    Schedule now { s with dist := d' } := by
  have hfirst : ∀ id, firstWeek { s with dist := d' } id = firstWeek s id := by
    intro id
    simp only [firstWeek, firstUsablePoint, hstart]
  refine ⟨h.points, hstart ▸ h.start, ?_, hsupply, ?_, ?_, ?_, ?_⟩
  · show d'.lastTokenTime ≤ d'.startTime ∨ d'.lastTokenTime ≤ now
    rcases htime with heq | ⟨-, hle⟩
    · rw [heq, hstart]
      exact h.tokenTime
    · exact .inr hle
  · intro id h0
    exact h.unclaimed id (hcursor ▸ h0)
  · show ∀ id, d'.timeCursorOf id ≠ 0 → max 1 (d'.userEpochOf id) ≤ s.ve.userPointEpoch id ∧
      (s.ve.userPointHistory id (max 1 (d'.userEpochOf id))).ts ≤ d'.timeCursorOf id
    rw [hcursor, hepoch]
    exact h.cursor
  · intro id h0
    obtain ⟨n, hn, hlist⟩ := h.claimed id (hcursor ▸ h0)
    refine ⟨n, ?_, ?_⟩
    · show d'.timeCursorOf id = _
      rw [hcursor, hfirst]
      exact hn
    · show s.paid.filter (·.id = id) = _
      rw [hlist, hfirst]
      refine List.map_congr_left fun k hk => ?_
      obtain ⟨p, hp, hweek⟩ := mem_paid hlist (List.mem_range.1 hk)
      obtain ⟨h1, h2⟩ := hpaid p hp
      rw [hweek] at h1 h2
      simp only [owed, h1, h2]
  · intro p hp
    obtain ⟨h1, h2, h3⟩ := h.final p hp
    refine ⟨hstart ▸ h1, h2.trans_le ?_, by rw [(hpaid p hp).1]; exact h3⟩
    show s.dist.lastTokenTime / WEEK * WEEK ≤ d'.lastTokenTime / WEEK * WEEK
    refine Nat.mul_le_mul_right _ (Nat.div_le_div_right ?_)
    rcases htime with heq | ⟨hle, -⟩
    · exact heq.ge
    · exact hle

/-- the supply loop writes between the two cursors only -/
theorem recordSupply_frame {ve : Ve.State} {upTo rounds t t' : ℕ} {supply supply' : ℕ → ℕ}
    (h : recordSupply ve upTo rounds t supply = .ok (supply', t')) :
    t ≤ t' ∧ ∀ w, w < t ∨ t' ≤ w → supply' w = supply w := by
  have hw := recordSupply_writes h
  obtain ⟨n, hn⟩ := hw.weeks
  exact ⟨by omega, fun w hout => hw.kept w fun k hk => by omega⟩

theorem checkpointTotalSupply_schedule {t : ℕ} (h : checkpointTotalSupply s.dist s.ve env = .ok (d', ve'))
    (ht : t ≤ env.timestamp) (hs : Schedule t s) : Schedule env.timestamp { s with dist := d', ve := ve' } := by
  obtain ⟨ve₁, hc, h⟩ := bind_ok.1 h
  obtain ⟨⟨supply, cursor⟩, hr, h⟩ := bind_ok.1 h
  cases h
  obtain ⟨hle, hkept⟩ := recordSupply_frame hr
  have hve := hs.ve (Ve.checkpoint_good hc).1.grows ht
  refine Schedule.dist (s := { s with ve := ve' }) hve rfl rfl rfl (.inl rfl) ?_ ?_
  · intro w hw
    by_contra hcon
    have hlate : cursor ≤ w := not_lt.1 hcon
    have hw' : s.dist.veSupply w ≠ 0 := by
      rw [← hkept w (.inr hlate)]
      exact hw
    have := hs.supply w hw'
    omega
  · intro p hp
    exact ⟨hkept _ (.inl (hs.supply _ (hs.final p hp).2.2)), rfl⟩

/-- tokens go to the week of the last checkpoint and later ones -/
theorem spreadTokens_frame {D since rounds t week : ℕ} {m m' : ℕ → ℕ}
    (h : spreadTokens now D since rounds t week m = .ok m') {w : ℕ} (hw : w < week) : m' w = m w := by
  have hadd : ∀ {week amount : ℕ} {m m' : ℕ → ℕ}, addTokens m week amount = .ok m' → w < week → m' w = m w := by
    intro week amount m m' h hw
    simp only [addTokens, inBounds_bind, uadd_bind, pure_ok] at h
    obtain ⟨-, -, rfl⟩ := h
    exact Function.update_of_ne hw.ne _ _
  induction rounds generalizing t week m with
  | zero =>
    cases h
    rfl
  | succ rounds ih =>
    simp only [spreadTokens, uadd_bind] at h
    obtain ⟨-, h⟩ := h
    split_ifs at h
    · obtain ⟨amount, -, h⟩ := bind_ok.1 h
      exact hadd h hw
    · obtain ⟨amount, -, h⟩ := bind_ok.1 h
      obtain ⟨m₁, hm, h⟩ := bind_ok.1 h
      rw [ih h (by omega), hadd hm hw]

theorem checkpointToken_schedule {balance : ℕ} (h : checkpointToken s.dist now balance = .ok d') (hs : Schedule now s) :
    Schedule now { s with dist := d' } := by
  simp only [checkpointToken, usub_bind] at h
  obtain ⟨-, hle, h⟩ := h
  obtain ⟨tokens, ht, h⟩ := bind_ok.1 h
  cases h
  refine hs.dist rfl rfl rfl (.inr ⟨hle, le_rfl⟩) hs.supply fun p hp => ⟨rfl, ?_⟩
  exact spreadTokens_frame ht (hs.final p hp).2.1

/-! ## Claims -/

/-- the portions of a claim are what is owed for its weeks -/
theorem Pays.eq_owed {id lastTokenTime src dst : ℕ} {ps : List Portion} (h : Pays s.dist s.ve id lastTokenTime src dst ps) :
    ∃ n, dst = src + n * WEEK ∧ ps = (List.range n).map fun k => owed s id (src + k * WEEK) := by
  obtain ⟨n, hn, hweeks⟩ := h.weeks
  have hself : ∀ p ∈ ps, owed s id p.week = p := by
    intro p hp
    obtain ⟨hid, -, -, -, -, hpower, hamount⟩ := h.each p hp
    have hnat : (userPower s.ve id p.week).toNat = p.power := by
      rw [← hpower]
      exact Int.toNat_natCast _
    obtain ⟨i, w, x, y⟩ := p
    simp only [owed] at *
    rw [hnat, hid, hamount]
  refine ⟨n, hn, ?_⟩
  calc ps = ps.map fun p => owed s id p.week := ((List.map_congr_left hself).trans (List.map_id' ps)).symm
    _ = (ps.map (·.week)).map (owed s id) := by rw [List.map_map]; rfl
    _ = (List.range n).map fun k => owed s id (src + k * WEEK) := by rw [hweeks, List.map_map]; rfl

/-- a claim starts where the last one stopped; the first one at the first week -/
theorem Schedule.claimStart_eq (h : Schedule now s) {id : ℕ} (hpos : 0 < s.ve.userPointEpoch id) :
    ∃ n, claimStart s.dist s.ve id = firstWeek s id + n * WEEK ∧
      s.paid.filter (·.id = id) = (List.range n).map fun k => owed s id (firstWeek s id + k * WEEK) := by
  by_cases h0 : s.dist.timeCursorOf id = 0
  · obtain ⟨he, hle, -⟩ := firstUserEpoch_spec s.dist s.ve id hpos.ne' fun h => (absurd h0 h)
    have hts : firstUserEpoch s.dist s.ve id = 1 ∨
        (s.ve.userPointHistory id (firstUserEpoch s.dist s.ve id)).ts ≤ s.dist.startTime := by
      unfold firstUserEpoch findTimestampUserEpoch
      simp only [if_pos h0]
      split_ifs with hzero
      · exact .inl rfl
      · refine .inr ((searchLast_at_most 128 0 (s.ve.userPointEpoch id)).resolve_left hzero)
    refine ⟨0, ?_, h.unclaimed id h0⟩
    rw [firstWeek_eq h.start h.points.sorted hpos he hle hts, claimStart, firstWeekCursor, if_pos h0, max_comm]
    simp [ceilWeek]
  · obtain ⟨n, hn, hlist⟩ := h.claimed id h0
    refine ⟨n, ?_, hlist⟩
    have hstart : s.dist.startTime ≤ firstWeek s id := le_max_left _ _
    rw [claimStart, firstWeekCursor, if_neg h0, hn, max_eq_left (by omega)]

/-- the weeks of a claim follow those paid before -/
theorem Schedule.pay (h : Schedule now s) {id userEpoch weekCursor : ℕ} {ps : List Portion}
    (hpos : 0 < s.ve.userPointEpoch id)
    (hpays : Pays s.dist s.ve id (s.dist.lastTokenTime / WEEK * WEEK) (claimStart s.dist s.ve id) weekCursor ps)
    (hcursor : max 1 userEpoch ≤ s.ve.userPointEpoch id ∧ (s.ve.userPointHistory id (max 1 userEpoch)).ts ≤ weekCursor)
    (token : ERC20) :
    Schedule now { s with
      dist := { s.dist with
        userEpochOf := Function.update s.dist.userEpochOf id userEpoch
        timeCursorOf := Function.update s.dist.timeCursorOf id weekCursor }
      paid := s.paid ++ ps, rewardToken := token } := by
  obtain ⟨n, hn, hbefore⟩ := h.claimStart_eq hpos
  obtain ⟨m, hm, hps⟩ := hpays.eq_owed
  have hids : ∀ p ∈ ps, p.id = id := fun p hp => (hpays.each p hp).1
  have hself : (s.paid ++ ps).filter (·.id = id) =
      (List.range (n + m)).map fun k => owed s id (firstWeek s id + k * WEEK) := by
    have hall : ps.filter (·.id = id) = ps := List.filter_eq_self.2 fun p hp => by simpa using hids p hp
    rw [List.filter_append, hbefore, hall, hps, List.range_add, List.map_append, List.map_map, hn]
    congr 1
    refine List.map_congr_left fun k _ => ?_
    rw [Function.comp_apply, Nat.add_mul, Nat.add_assoc]
  have hother : ∀ i, i ≠ id → (s.paid ++ ps).filter (·.id = i) = s.paid.filter (·.id = i) := by
    intro i hi
    have hnone : ps.filter (·.id = i) = [] := by
      refine List.filter_eq_nil_iff.2 fun p hp => ?_
      rw [hids p hp]
      simpa using hi.symm
    rw [List.filter_append, hnone, List.append_nil]
  have hweek : weekCursor = firstWeek s id + (n + m) * WEEK := by
    rw [hm, hn, Nat.add_mul, Nat.add_assoc]
  refine ⟨h.points, h.start, h.tokenTime, h.supply, fun i h0 => ?_, fun i h0 => ?_, fun i h0 => ?_, fun p hp => ?_⟩
  · by_cases hi : i = id
    · subst hi
      have hzero : weekCursor = 0 := by simpa using h0
      -- a cursor of 0 has passed no week
      have hpos := week_pos
      have : n + m = 0 := by
        by_contra hne
        have : 0 < (n + m) * WEEK := Nat.mul_pos (Nat.pos_of_ne_zero hne) hpos
        omega
      show (s.paid ++ ps).filter (·.id = i) = []
      rw [hself, this]
      rfl
    · show (s.paid ++ ps).filter (·.id = i) = []
      rw [hother i hi]
      exact h.unclaimed i (by simpa [Function.update_of_ne hi] using h0)
  · dsimp only at h0 ⊢
    by_cases hi : i = id
    · subst hi
      rw [Function.update_self, Function.update_self]
      exact hcursor
    · rw [Function.update_of_ne hi] at h0
      rw [Function.update_of_ne hi, Function.update_of_ne hi]
      exact h.cursor i h0
  · dsimp only at h0 ⊢
    by_cases hi : i = id
    · subst hi
      rw [Function.update_self]
      exact ⟨n + m, hweek, hself⟩
    · rw [Function.update_of_ne hi] at h0 ⊢
      rw [hother i hi]
      exact h.claimed i h0
  · rcases List.mem_append.1 hp with hp | hp
    · exact h.final p hp
    · obtain ⟨-, h1, -, h2, h3, -⟩ := hpays.each p hp
      exact ⟨(le_max_right _ _).trans h1, h2, h3⟩

theorem claimAndPay_schedule {id amount : ℕ}
    (h : claimAndPay self s id (s.dist.lastTokenTime / WEEK * WEEK) = .ok (s', amount)) (hs : Schedule now s) :
    Schedule now s' ∧ s'.dist.lastTokenTime = s.dist.lastTokenTime := by
  obtain ⟨⟨d₁, r⟩, hc, h⟩ := bind_ok.1 h
  obtain ⟨s₁, hp, h⟩ := bind_ok.1 h
  cases h
  obtain ⟨hr, hd⟩ := claimOne_ok hc
  obtain ⟨token, rfl, -⟩ := payOwner_ok hp
  have hok := calculateClaim_ok hs.points.sorted (hs.cursor id) hr
  by_cases hsucc : r.success = true
  · rw [if_pos hsucc] at hd
    subst hd
    exact ⟨hs.pay (hok.used hsucc) (hok.pays hsucc).2 (hok.cursor hsucc) token, rfl⟩
  · rw [if_neg hsucc] at hd
    subst hd
    rw [hok.failed (by simpa using hsucc), List.append_nil]
    exact ⟨{ hs with }, rfl⟩

/-- what a claim transfers is what its portions come to -/
theorem claimAndPay_amount {id lastTokenTime amount : ℕ} (h : claimAndPay self s id lastTokenTime = .ok (s', amount))
    (hs : Schedule now s) : ∃ ps, s'.paid = s.paid ++ ps ∧ (∀ p ∈ ps, p.id = id) ∧ amount = (ps.map (·.amount)).sum := by
  obtain ⟨⟨d₁, r⟩, hc, h⟩ := bind_ok.1 h
  obtain ⟨s₁, hp, h⟩ := bind_ok.1 h
  cases h
  obtain ⟨token, rfl, -⟩ := payOwner_ok hp
  have hok := calculateClaim_ok hs.points.sorted (hs.cursor id) (claimOne_ok hc).1
  refine ⟨r.portions, rfl, fun p hmem => ?_, hok.total⟩
  by_cases hsucc : r.success = true
  · exact ((hok.pays hsucc).2.each p hmem).1
  · rw [hok.failed (by simpa using hsucc)] at hmem
    exact absurd hmem List.not_mem_nil

theorem claimEach_schedule (ids : List ℕ) {total total' : ℕ}
    (h : claimEach self (s.dist.lastTokenTime / WEEK * WEEK) ids s total = .ok (s', total')) (hs : Schedule now s) :
    Schedule now s' := by
  induction ids generalizing s total with
  | nil =>
    cases h
    exact hs
  | cons id ids ih =>
    rw [claimEach] at h
    split_ifs at h
    · cases h
      exact hs
    · obtain ⟨⟨s₁, amount⟩, hc, h⟩ := bind_ok.1 h
      simp only [uadd_bind] at h
      obtain ⟨-, h⟩ := h
      obtain ⟨hs₁, htime⟩ := claimAndPay_schedule hc hs
      rw [← htime] at h
      exact ih h hs₁

theorem lowerIfPaid_schedule {amount : ℕ} (h : (if amount ≠ 0 then lowerLastBalance s amount else pure s) = .ok s')
    (hs : Schedule now s) : Schedule now s' := by
  split_ifs at h
  · simp only [lowerLastBalance, usub_bind, pure_ok] at h
    obtain ⟨-, rfl⟩ := h
    exact hs.dist rfl rfl rfl (.inl rfl) hs.supply fun _ _ => ⟨rfl, rfl⟩
  · cases h
    exact hs

theorem checkpointIfDue_schedule {t : ℕ} (h : checkpointIfDue s env = .ok s') (ht : t ≤ env.timestamp)
    (hs : Schedule t s) : Schedule env.timestamp s' := by
  unfold checkpointIfDue at h
  split_ifs at h
  · obtain ⟨⟨d₁, ve₁⟩, hc, h⟩ := bind_ok.1 h
    cases h
    exact checkpointTotalSupply_schedule hc ht hs
  · cases h
    exact hs.mono ht

/-! ## Whole runs -/

/-- **One call.** The books of claims are kept by every call, at its time. -/
theorem exec_schedule {t : ℕ} {c : Env × Call} (h : exec cfg self s c = .ok s') (ht : t ≤ c.1.timestamp)
    (hs : Schedule t s) : Schedule c.1.timestamp s' := by
  obtain ⟨env, call⟩ := c
  cases call with
  | ve call =>
    obtain ⟨ve₁, h1, ⟨⟩⟩ := bind_ok.1 h
    exact hs.ve (exec_extends h1).1 ht
  | checkpoint =>
    obtain ⟨⟨d₁, ve₁⟩, h1, ⟨⟩⟩ := bind_ok.1 h
    simp only [checkpoint, uadd_bind] at h1
    obtain ⟨-, h1⟩ := h1
    split_ifs at h1
    · obtain ⟨d₂, hd, h1⟩ := bind_ok.1 h1
      have hs₁ : Schedule env.timestamp { s with dist := { s.dist with activePeriod := env.timestamp / WEEK * WEEK } } :=
        (hs.mono ht).dist rfl rfl rfl (.inl rfl) hs.supply fun _ _ => ⟨rfl, rfl⟩
      have hs₂ := checkpointToken_schedule
        (s := { s with dist := { s.dist with activePeriod := env.timestamp / WEEK * WEEK } }) hd hs₁
      exact checkpointTotalSupply_schedule (s := { s with dist := d₂ }) h1 le_rfl hs₂
    · cases h1
      exact hs.mono ht
  | checkpointTotalSupply =>
    obtain ⟨⟨d₁, ve₁⟩, h1, ⟨⟩⟩ := bind_ok.1 h
    exact checkpointTotalSupply_schedule h1 ht hs
  | claim id =>
    obtain ⟨s₁, h1, h⟩ := bind_ok.1 h
    obtain ⟨⟨s₂, amount⟩, h2, h⟩ := bind_ok.1 h
    exact lowerIfPaid_schedule h (claimAndPay_schedule h2 (checkpointIfDue_schedule h1 ht hs)).1
  | claimMany ids =>
    obtain ⟨s₁, h1, h⟩ := bind_ok.1 h
    obtain ⟨⟨s₂, total⟩, h2, h⟩ := bind_ok.1 h
    exact lowerIfPaid_schedule h (claimEach_schedule ids h2 (checkpointIfDue_schedule h1 ht hs))
  | fund src amount =>
    obtain ⟨token, -, ⟨⟩⟩ := bind_ok.1 h
    exact { hs.mono ht with }

theorem deploySystem_schedule (env : Env) (erc20 : Address → ERC20) (shady : Address) (start : ℕ) (rewardToken : ERC20) :
    Schedule 0 (deploySystem env erc20 shady start rewardToken) := by
  refine ⟨⟨?_, ?_, ?_⟩, Nat.mul_mod_left _ _, .inl le_rfl, ?_, ?_, ?_, ?_, ?_⟩
  · intro i j k _ _
    exact le_rfl
  · intro i k h1 h2
    exact absurd h2 (not_le.2 h1)
  · intro i
    rfl
  · intro w hw
    exact absurd rfl hw
  · intro id _
    rfl
  · intro id h0
    exact absurd rfl h0
  · intro id h0
    exact absurd rfl h0
  · intro p hp
    exact absurd hp List.not_mem_nil

end SimContracts.VeDistributor
