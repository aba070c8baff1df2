/-
Voting power in the past: what the recorded points say about a time that has passed.

The power of an NFT at a time is read from its last point that is not later, and so is the total from the global
history. At a week boundary the two agree, because every checkpoint records the boundaries it passes; between two
boundaries they may differ, since the global slope changes at boundaries only.

Results:
  Extends.userPower       a call at `now` does not change any power before `now`
  checkpoint_history      a checkpoint keeps the histories sorted and balanced at every boundary
-/
import SimContracts.Core.Search
import SimContracts.Ve.Supply

namespace SimContracts.Ve

open Solidity Decay Search

variable {s s' : State} {env : Env} {derived ends derived' ends' : ℕ → ℕ} {now : ℕ}

/-! ## Power in the past -/

/-- the line of the point at a time, not below zero -/
def powerOf (p : Point) (t : ℕ) : ℤ := positiveInt128 (p.bias - p.slope * ((t - p.ts : ℕ) : ℤ))

theorem powerOf_nonneg (p : Point) (t : ℕ) : 0 ≤ powerOf p t := le_max_right _ _

/-- the last point of an NFT that is not after `t` -/
def userPointAt (s : State) (i t : ℕ) : Point :=
  s.userPointHistory i (lastAt (fun k => (s.userPointHistory i k).ts) t (s.userPointEpoch i))

/-- the last global point that is not after `t` -/
def pointAt (s : State) (t : ℕ) : Point := s.pointHistory (lastAt (fun k => (s.pointHistory k).ts) t s.epoch)

def userPower (s : State) (i t : ℕ) : ℤ := powerOf (userPointAt s i t) t

theorem userPower_nonneg (s : State) (i t : ℕ) : 0 ≤ userPower s i t := powerOf_nonneg _ _

/-- what is recorded at `now` does not change the past -/
theorem Extends.userPower (h : Extends now s s') {w : ℕ} (hw : w < now) (i : ℕ) : userPower s' i w = userPower s i w := by
  have hlast : lastAt (fun k => (s'.userPointHistory i k).ts) w (s'.userPointEpoch i) =
      lastAt (fun k => (s.userPointHistory i k).ts) w (s.userPointEpoch i) := by
    apply lastAt_append
    · intro k hk
      rw [h.userPoints i k hk]
    · exact h.userEpoch_le i
    · intro k h1 h2
      rw [h.newPoints i k h1 h2]
      exact hw
  rw [Ve.userPower, Ve.userPower, userPointAt, userPointAt, hlast, h.userPoints i _ (lastAt_le _ _ _)]

/-- nothing but points without power is recorded for NFTs -/
structure Fades (now : ℕ) (s s' : State) : Prop where
  grows : Extends now s s'
  powerless : ∀ i k, s.userPointEpoch i < k → k ≤ s'.userPointEpoch i →
    (s'.userPointHistory i k).bias ≤ 0 ∧ 0 ≤ (s'.userPointHistory i k).slope

theorem Fades.refl (now : ℕ) (s : State) : Fades now s s := ⟨.refl now s, fun _ _ h1 h2 => absurd h2 (not_le.2 h1)⟩

theorem Fades.trans {s₁ s₂ s₃ : State} (h : Fades now s₁ s₂) (h' : Fades now s₂ s₃) : Fades now s₁ s₃ := by
  refine ⟨h.grows.trans h'.grows, fun i k h1 h2 => ?_⟩
  rcases le_or_gt k (s₂.userPointEpoch i) with hk | hk
  · rw [h'.grows.userPoints i k hk]
    exact h.powerless i k h1 hk
  · exact h'.powerless i k hk h2

theorem Fades.noWrap (h : Fades now s s') (hw : NoWrap s) : NoWrap s' := by
  intro i k hk
  rcases le_or_gt k (s.userPointEpoch i) with hks | hks
  · rw [h.grows.userPoints i k hks]
    exact hw i k hks
  · exact (h.powerless i k hks hk).2

/-- then no power at the block grows -/
theorem Fades.userPower_le (h : Fades now s s') (i : ℕ) : userPower s' i now ≤ userPower s i now := by
  rcases (h.grows.userEpoch_le i).lt_or_eq with hlt | heq
  · have hts := h.grows.newPoints i _ hlt le_rfl
    have hbias := (h.powerless i _ hlt le_rfl).1
    have hpoint : userPointAt s' i now = s'.userPointHistory i (s'.userPointEpoch i) := by
      rw [userPointAt, lastAt_eq le_rfl (fun _ => hts.le) fun k h1 h2 => by omega]
    have hzero : userPower s' i now = 0 := by
      rw [userPower, hpoint, powerOf, hts, Nat.sub_self, Nat.cast_zero, mul_zero, sub_zero]
      exact max_eq_right hbias
    rw [hzero]
    exact userPower_nonneg _ _ _
  · have hlast : lastAt (fun k => (s'.userPointHistory i k).ts) now (s'.userPointEpoch i) =
        lastAt (fun k => (s.userPointHistory i k).ts) now (s.userPointEpoch i) :=
      lastAt_append (fun k hk => by rw [h.grows.userPoints i k hk]) heq.le fun k h1 h2 => by omega
    rw [userPower, userPower, userPointAt, userPointAt, hlast, h.grows.userPoints i _ (lastAt_le _ _ _)]

/-! ## The invariant of the histories -/

structure HistoryInv (s : State) : Prop where
  sorted : ∀ j k, j ≤ k → k ≤ s.epoch → (s.pointHistory j).ts ≤ (s.pointHistory k).ts
  userSorted : ∀ i j k, j ≤ k → k ≤ s.userPointEpoch i → (s.userPointHistory i j).ts ≤ (s.userPointHistory i k).ts
  first : ∀ i, s.userPointHistory i 0 = ⟨0, 0, 0, 0⟩
  start : (s.pointHistory 0).bias = 0 ∧ (s.pointHistory 0).slope = 0
  balanced : ∀ w, w % WEEK = 0 → w ≤ (lastPoint s).ts → powerOf (pointAt s w) w = ∑ i ∈ ids s, userPower s i w

/-- an NFT without points has no power -/
theorem HistoryInv.userPower_unused (h : HistoryInv s) {i : ℕ} (h0 : s.userPointEpoch i = 0) (t : ℕ) :
    userPower s i t = 0 := by
  have hlast := lastAt_le (fun k => (s.userPointHistory i k).ts) t (s.userPointEpoch i)
  rw [Ve.userPower, userPointAt, show lastAt _ t (s.userPointEpoch i) = 0 by omega, h.first, powerOf]
  simp [positiveInt128]

/-- from the last checkpoint on, the power of an NFT is that of its lock -/
theorem SupplyInv.userPower_eq (h : SupplyInv s derived ends) (hw : NoWrap s)
    (hfirst : ∀ i, s.userPointHistory i 0 = ⟨0, 0, 0, 0⟩) {t : ℕ} (ht : (lastPoint s).ts ≤ t) (i : ℕ) :
    userPower s i t = rateOf derived i * ((ends i - t : ℕ) : ℤ) := by
  rcases h.users i with ⟨h0, hd⟩ | ⟨hpos, hts, hline⟩
  · have hlast := lastAt_le (fun k => (s.userPointHistory i k).ts) t (s.userPointEpoch i)
    rw [Ve.userPower, userPointAt, show lastAt _ t (s.userPointEpoch i) = 0 by omega, hfirst, rateOf, hd, slopeOf_zero,
      powerOf]
    simp [positiveInt128]
  · have hle : (userPoint s i).ts ≤ t := hts.trans ht
    have hpoint : userPointAt s i t = userPoint s i := by
      rw [userPointAt, lastAt_eq le_rfl (fun _ => hle) fun k h1 h2 => by omega]
      rfl
    rw [Ve.userPower, hpoint]
    exact hline.extrapolate (hw i _ le_rfl) hle

/-- the sum of the powers from the last checkpoint on -/
theorem SupplyInv.sum_userPower (h : SupplyInv s derived ends) (hw : NoWrap s)
    (hfirst : ∀ i, s.userPointHistory i 0 = ⟨0, 0, 0, 0⟩) {t : ℕ} (ht : (lastPoint s).ts ≤ t) :
    ∑ i ∈ ids s, userPower s i t = weight (ids s) (rateOf derived) ends t :=
  Finset.sum_congr rfl fun i _ => h.userPower_eq hw hfirst ht i

/-- a point on the curve, at its own time -/
theorem OnCurve.powerOf_eq {J : Finset ℕ} {rate : ℕ → ℤ} {p : Point} (h : OnCurve J rate ends p)
    (hnonneg : 0 ≤ weight J rate ends p.ts) : powerOf p p.ts = weight J rate ends p.ts := by
  rw [powerOf, h.bias, Nat.sub_self, Nat.cast_zero, mul_zero, sub_zero]
  exact positiveInt128_of_nonneg hnonneg

/-! ## One checkpoint -/

/-- what a checkpoint did to the global history: it was filled, and ended with a point at the block -/
structure Checkpointed (s : State) (env : Env) (s' : State) : Prop where
  tokenId : s'.tokenId = s.tokenId
  grows : Extends env.timestamp s s'
  filled : ∃ f p, fillHistory s env = .ok f ∧ s'.epoch = f.epoch ∧
    s'.pointHistory = Function.update f.pointHistory f.epoch p ∧ p.ts = env.timestamp

/-- the new global points: one at the block, and before it one for every boundary passed since the last point, on the
curve of the locks so far -/
structure Passed (s : State) (env : Env) (s' : State) (derived ends : ℕ → ℕ) : Prop where
  last : (lastPoint s').ts = env.timestamp
  epoch_lt : s.epoch < s'.epoch
  week : ∀ k, s.epoch < k → k < s'.epoch →
    (s'.pointHistory k).ts = startTs s env / WEEK * WEEK + (k - s.epoch) * WEEK
  before : ∀ k, s.epoch < k → k < s'.epoch → (s'.pointHistory k).ts < env.timestamp
  onCurve : ∀ k, s.epoch < k → k < s'.epoch → OnCurve (ids s) (rateOf derived) ends (s'.pointHistory k)
  reaches : env.timestamp ≤ startTs s env / WEEK * WEEK + (s'.epoch - s.epoch) * WEEK

theorem Checkpointed.passed (hc : Checkpointed s env s') (h : SupplyInv s derived ends) (hw : NoWrap s)
    (ht : Timely s env) : Passed s env s' derived ends := by
  obtain ⟨f, p, hf, hepoch, hhist, hp⟩ := hc.filled
  obtain ⟨f₀, h0, -, hti, hfill⟩ := fillHistory_filled h hw ht hf
  have hlt := hfill.epoch_lt
  have hreach := hfill.reaches_now
  have hbefore := hfill.before_now
  rw [h0, hti] at hreach hbefore
  have hpoint : ∀ k, k < s'.epoch → s'.pointHistory k = f.pointHistory k := by
    intro k hk
    rw [hhist, Function.update_of_ne (by omega)]
  have hweek : ∀ k, s.epoch < k → k < s'.epoch →
      (s'.pointHistory k).ts = startTs s env / WEEK * WEEK + (k - s.epoch) * WEEK := by
    intro k h1 h2
    rw [hpoint k h2, (hfill.weeks k (by omega) (by omega)).1, h0, hti]
  refine ⟨?_, by omega, hweek, ?_, ?_, by rw [hepoch]; exact hreach⟩
  · rw [lastPoint, hepoch, hhist, Function.update_self, hp]
  · intro k h1 h2
    have hmono : (k - s.epoch) * WEEK ≤ (f.epoch - s.epoch - 1) * WEEK := Nat.mul_le_mul_right _ (by omega)
    rw [hweek k h1 h2]
    omega
  · intro k h1 h2
    rw [hpoint k h2]
    exact (hfill.weeks k (by omega) (by omega)).2

/-- every new point is later than the last one, unless it is the one at the block -/
theorem Passed.later (hp : Passed s env s' derived ends) (ht : Timely s env) {k : ℕ} (h1 : s.epoch < k)
    (h2 : k < s'.epoch) : (lastPoint s).ts < (s'.pointHistory k).ts := by
  have hstart : (lastPoint s).ts ≤ startTs s env := by
    have := ht.ordered
    unfold startTs
    split_ifs <;> omega
  have hdiv := Nat.lt_div_mul_add (a := startTs s env) week_pos
  have hone : 1 * WEEK ≤ (k - s.epoch) * WEEK := Nat.mul_le_mul_right _ (by omega)
  rw [hp.week k h1 h2]
  omega

theorem Passed.sorted (hp : Passed s env s' derived ends) (hc : Checkpointed s env s') (ht : Timely s env)
    (hs : ∀ j k, j ≤ k → k ≤ s.epoch → (s.pointHistory j).ts ≤ (s.pointHistory k).ts) (j k : ℕ) (hjk : j ≤ k)
    (hk : k ≤ s'.epoch) : (s'.pointHistory j).ts ≤ (s'.pointHistory k).ts := by
  have hordered := ht.ordered
  have hlast : (s'.pointHistory s'.epoch).ts = env.timestamp := hp.last
  have hold : ∀ i, i ≤ s.epoch → (s'.pointHistory i).ts ≤ (lastPoint s).ts := by
    intro i hi
    rw [hc.grows.points i hi]
    exact hs i _ hi le_rfl
  rcases hk.lt_or_eq with hk | rfl
  · rcases le_or_gt k s.epoch with hks | hks
    · rw [hc.grows.points j (by omega), hc.grows.points k hks]
      exact hs j k hjk hks
    · rcases le_or_gt j s.epoch with hjs | hjs
      · exact (hold j hjs).trans (hp.later ht hks hk).le
      · rw [hp.week j hjs (by omega), hp.week k hks hk]
        exact Nat.add_le_add_left (Nat.mul_le_mul_right _ (by omega)) _
  · rw [hlast]
    rcases le_or_gt j s.epoch with hjs | hjs
    · exact (hold j hjs).trans hordered
    · rcases hjk.lt_or_eq with hj | rfl
      · exact (hp.before j hjs hj).le
      · exact hlast.le

/-- up to the last point before the checkpoint, the global history is as it was -/
theorem Passed.pointAt_old (hp : Passed s env s' derived ends) (hc : Checkpointed s env s') (ht : Timely s env) {w : ℕ}
    (hw : w < env.timestamp) (hle : w ≤ (lastPoint s).ts) : pointAt s' w = pointAt s w := by
  have hlast : lastAt (fun k => (s'.pointHistory k).ts) w s'.epoch = lastAt (fun k => (s.pointHistory k).ts) w s.epoch := by
    apply lastAt_append
    · intro k hk
      rw [hc.grows.points k hk]
    · exact hp.epoch_lt.le
    · intro k h1 h2
      rcases h2.lt_or_eq with h2 | rfl
      · exact hle.trans_lt (hp.later ht h1 h2)
      · exact hw.trans_eq hp.last.symm
  rw [pointAt, pointAt, hlast, hc.grows.points _ (lastAt_le _ _ _)]

/-- a boundary passed since the last point has its own point -/
theorem Passed.pointAt_week (hp : Passed s env s' derived ends) (hpos : 0 < s.epoch) {w : ℕ} (halign : w % WEEK = 0)
    (hlt : (lastPoint s).ts < w) (hw : w < env.timestamp) :
    (pointAt s' w).ts = w ∧ OnCurve (ids s) (rateOf derived) ends (pointAt s' w) := by
  have hstart : startTs s env = (lastPoint s).ts := if_pos hpos
  have hweek := hp.week
  have hreach := hp.reaches
  rw [hstart] at hweek hreach
  generalize hfloor : (lastPoint s).ts / WEEK * WEEK = floor at *
  have hfloor_le : floor ≤ (lastPoint s).ts := hfloor ▸ Nat.div_mul_le_self _ _
  obtain ⟨n, rfl⟩ : ∃ n, w = floor + n * WEEK := by
    have hdvd : WEEK ∣ w - floor := Nat.dvd_sub (Nat.dvd_of_mod_eq_zero halign) (hfloor ▸ Nat.dvd_mul_left _ _)
    obtain ⟨n, hn⟩ := hdvd
    exact ⟨n, by rw [Nat.mul_comm n]; omega⟩
  have hn : 0 < n := by
    rcases Nat.eq_zero_or_pos n with rfl | hn
    · omega
    · exact hn
  have hn' : n < s'.epoch - s.epoch := by
    by_contra hcon
    have := Nat.mul_le_mul_right WEEK (not_lt.1 hcon)
    omega
  have hk : (s'.pointHistory (s.epoch + n)).ts = floor + n * WEEK := by
    rw [hweek _ (by omega) (by omega), Nat.add_sub_cancel_left]
  have hlast : lastAt (fun k => (s'.pointHistory k).ts) (floor + n * WEEK) s'.epoch = s.epoch + n := by
    refine lastAt_eq (by omega) (fun _ => hk.le) fun k h1 h2 => ?_
    rcases h2.lt_or_eq with h2 | rfl
    · rw [hweek k (by omega) h2]
      exact Nat.add_lt_add_left ((Nat.mul_lt_mul_right week_pos).2 (by omega)) _
    · exact hw.trans_eq hp.last.symm
  rw [pointAt, hlast]
  exact ⟨hk, hp.onCurve _ (by omega) (by omega)⟩

/-- before the first checkpoint, the global history is empty up to the block -/
theorem Passed.pointAt_first (hp : Passed s env s' derived ends) (h0 : s.epoch = 0) {w : ℕ} (hw : w < env.timestamp) :
    pointAt s' w = s'.pointHistory 0 := by
  have hstart : startTs s env = env.timestamp := if_neg (by omega)
  have hdiv := Nat.lt_div_mul_add (a := env.timestamp) week_pos
  have hlast : lastAt (fun k => (s'.pointHistory k).ts) w s'.epoch = 0 := by
    refine lastAt_eq (Nat.zero_le _) (fun h => absurd rfl h) fun k h1 h2 => ?_
    rcases h2.lt_or_eq with h2 | rfl
    · have hweek := hp.week k (by omega) h2
      have hbefore := hp.before k (by omega) h2
      have hone : 1 * WEEK ≤ (k - s.epoch) * WEEK := Nat.mul_le_mul_right _ (by omega)
      rw [hstart] at hweek
      omega
    · exact hw.trans_eq hp.last.symm
  rw [pointAt, hlast]

/-- the powers of the single locks at a boundary passed by the checkpoint -/
theorem Passed.balanced_week (hp : Passed s env s' derived ends) (hc : Checkpointed s env s') (h : SupplyInv s derived ends)
    (hwrap : NoWrap s) (hi : HistoryInv s) {w : ℕ} (halign : w % WEEK = 0) (hlt : (lastPoint s).ts < w)
    (hw : w < env.timestamp) : powerOf (pointAt s' w) w = ∑ i ∈ ids s', userPower s' i w := by
  have hids : ids s' = ids s := by rw [ids, ids, hc.tokenId]
  have hsum : ∑ i ∈ ids s', userPower s' i w = weight (ids s) (rateOf derived) ends w := by
    rw [hids, ← h.sum_userPower hwrap hi.first hlt.le]
    exact Finset.sum_congr rfl fun i _ => hc.grows.userPower hw i
  rw [hsum]
  rcases Nat.eq_zero_or_pos s.epoch with h0 | hpos
  · have hrate : ∀ i, rateOf derived i = 0 := fun i => by rw [rateOf, h.start h0, slopeOf_zero]
    have hpoint : pointAt s' w = s.pointHistory 0 := by
      rw [hp.pointAt_first h0 hw, hc.grows.points 0 (Nat.zero_le _)]
    rw [hpoint, powerOf, hi.start.1, hi.start.2]
    simp [weight, hrate, positiveInt128]
  · obtain ⟨hts, hcurve⟩ := hp.pointAt_week hpos halign hlt hw
    have hnonneg : 0 ≤ weight (ids s) (rateOf derived) ends w :=
      weight_nonneg fun i hi hlive => (h.scheduled hwrap).nonneg i hi (by omega)
    have := hcurve.powerOf_eq (by rw [hts]; exact hnonneg)
    rwa [hts] at this

/-- **A checkpoint keeps the histories** sorted, and balanced at every boundary up to the block. -/
theorem checkpoint_history (hc : Checkpointed s env s') (h : SupplyInv s derived ends) (hwrap : NoWrap s)
    (h' : SupplyInv s' derived' ends') (hwrap' : NoWrap s') (ht : Timely s env) (hi : HistoryInv s) :
    HistoryInv s' := by
  have hp := hc.passed h hwrap ht
  have hordered := ht.ordered
  have hfirst : ∀ i, s'.userPointHistory i 0 = ⟨0, 0, 0, 0⟩ := by
    intro i
    rw [hc.grows.userPoints i 0 (Nat.zero_le _)]
    exact hi.first i
  refine ⟨hp.sorted hc ht hi.sorted, ?_, hfirst, ?_, ?_⟩
  · intro i j k hjk hk
    -- every point so far is at or before the block
    have hold : ∀ m, m ≤ s.userPointEpoch i → (s'.userPointHistory i m).ts ≤ env.timestamp := by
      intro m hm
      rw [hc.grows.userPoints i m hm]
      refine (hi.userSorted i m _ hm le_rfl).trans ?_
      rcases h.users i with ⟨h0, -⟩ | ⟨-, hts, -⟩
      · rw [h0, hi.first]
        exact Nat.zero_le _
      · exact hts.trans hordered
    rcases le_or_gt k (s.userPointEpoch i) with hks | hks
    · rw [hc.grows.userPoints i j (by omega), hc.grows.userPoints i k hks]
      exact hi.userSorted i j k hjk hks
    · rw [hc.grows.newPoints i k hks hk]
      rcases le_or_gt j (s.userPointEpoch i) with hjs | hjs
      · exact hold j hjs
      · exact (hc.grows.newPoints i j hjs (by omega)).le
  · rw [hc.grows.points 0 (Nat.zero_le _)]
    exact hi.start
  · intro w halign hw
    rw [hp.last] at hw
    rcases hw.lt_or_eq with hw | rfl
    · rcases le_or_gt w (lastPoint s).ts with hle | hlt
      · have hids : ids s' = ids s := by rw [ids, ids, hc.tokenId]
        rw [hp.pointAt_old hc ht hw hle, hi.balanced w halign hle, hids]
        exact Finset.sum_congr rfl fun i _ => (hc.grows.userPower hw i).symm
      · exact hp.balanced_week hc h hwrap hi halign hlt hw
    · -- at the block itself, both sides are those of the last points
      have hpoint : pointAt s' env.timestamp = lastPoint s' := by
        rw [pointAt, lastAt_eq le_rfl (fun _ => hp.last.le) fun k h1 h2 => by omega]
        rfl
      have hnonneg : 0 ≤ weight (ids s') (rateOf derived') ends' (lastPoint s').ts :=
        weight_nonneg fun i hi hlive => (h'.scheduled hwrap').nonneg i hi hlive
      rw [hpoint, ← hp.last, h'.onCurve.powerOf_eq hnonneg, h'.sum_userPower hwrap' hfirst le_rfl]

theorem checkpointGlobal_checkpointed (h : checkpointGlobal s env = .ok s')
    (hts : (lastPoint s').ts = env.timestamp) : Checkpointed s env s' := by
  have hext := checkpointGlobal_extends h
  obtain ⟨f, hf, hc⟩ := bind_ok.1 h
  cases hc
  refine ⟨rfl, hext, f, f.lastPoint, hf, rfl, rfl, ?_⟩
  rw [← hts]
  exact congrArg Point.ts (Function.update_self f.epoch f.lastPoint f.pointHistory).symm

theorem checkpointLock_checkpointed {info : CheckpointInfo} (h : checkpointLock s env info = .ok s')
    (hts : (lastPoint s').ts = env.timestamp) : Checkpointed s env s' := by
  have hext := checkpointLock_extends h
  obtain ⟨uOld, uNew, f, p, sc₁, sc₂, -, -, hf, -, -, -, rfl⟩ := checkpointLock_ok h
  refine ⟨rfl, hext, f, p, hf, rfl, rfl, ?_⟩
  rw [← hts]
  exact congrArg Point.ts (Function.update_self f.epoch p f.pointHistory).symm

end SimContracts.Ve
