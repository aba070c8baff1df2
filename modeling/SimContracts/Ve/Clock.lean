/-
Times and blocks of the recorded points. Calls are made in blocks whose numbers and times do not go back, and a block
has one time (`Follows`). Then the global points and the points of every NFT are in the order of both, and none is later
than the last call. From one global point to the next it is at most to the next week boundary, along a line on which no
`int128` overflows.

Results:
  checkpointWith_clocked   a checkpoint keeps the histories in order
  run_clocked              so they are in order after every run
  run_twinned              if the checkpoints are in time, every point of an NFT has a global point of the same block
-/
import SimContracts.Ve.Blocks
import SimContracts.Ve.Passes
import SimContracts.Ve.Units

namespace SimContracts.Ve

open Solidity

variable {cfg : Config} {s s' s₁ s₂ : State} {env env' : Env} {sc : ℕ → ℤ} {blockSlope : ℕ} {f f' : Fill}

/-! ## The clock -/

/-- neither the number nor the time of a block goes back, and a block has one time -/
structure Follows (env env' : Env) : Prop where
  timestamp : env.timestamp ≤ env'.timestamp
  number : env.number ≤ env'.number
  same : env.number = env'.number → env.timestamp = env'.timestamp

instance (env env' : Env) : Decidable (Follows env env') :=
  decidable_of_iff
    (env.timestamp ≤ env'.timestamp ∧ env.number ≤ env'.number ∧ (env.number = env'.number → env.timestamp = env'.timestamp))
    ⟨fun h => ⟨h.1, h.2.1, h.2.2⟩, fun h => ⟨h.timestamp, h.number, h.same⟩⟩

/-- a point of the past: not after the block, and of the block only at its time -/
structure Past (env : Env) (p : Point) : Prop where
  ts : p.ts ≤ env.timestamp
  blk : p.blk ≤ env.number
  same : p.blk = env.number → p.ts = env.timestamp

theorem Past.follows {p : Point} (h : Past env p) (hf : Follows env env') : Past env' p := by
  refine ⟨h.ts.trans hf.timestamp, h.blk.trans hf.number, fun heq => ?_⟩
  have hnumber : env.number = env'.number := le_antisymm hf.number (heq ▸ h.blk)
  rw [h.same (heq.trans hnumber.symm), hf.same hnumber]

/-! ## The fill -/

/-- from a point to the next one: forward to the next boundary at most, and the line of the point can be followed -/
structure Stretch (p q : Point) : Prop where
  ts : p.ts ≤ q.ts
  week : q.ts ≤ p.ts / WEEK * WEEK + WEEK
  blk : p.blk ≤ q.blk
  slope : 0 ≤ p.slope
  bias : IsInt128 p.bias
  decay : IsInt128 (p.slope * ((q.ts - p.ts : ℕ) : ℤ))
  left : IsInt128 (p.bias - p.slope * ((q.ts - p.ts : ℕ) : ℤ))

theorem Stretch.congr {p q q' : Point} (h : Stretch p q) (hts : q'.ts = q.ts) (hblk : q'.blk = q.blk) : Stretch p q' := by
  constructor
  · exact hts ▸ h.ts
  · exact hts ▸ h.week
  · exact hblk ▸ h.blk
  · exact h.slope
  · exact h.bias
  · exact hts ▸ h.decay
  · exact hts ▸ h.left

/-- the loop variables when the current point is recorded -/
structure FillFrom (env : Env) (f : Fill) : Prop where
  recorded : f.pointHistory f.epoch = f.lastPoint
  checkpoint : f.lastCheckpoint = f.lastPoint.ts
  week : f.ti = f.lastPoint.ts / WEEK * WEEK
  blk : f.lastPoint.blk ≤ env.number
  slope : 0 ≤ f.lastPoint.slope
  bias : IsInt128 f.lastPoint.bias

/-- one round is a stretch -/
theorem FillStep.stretch {now : ℕ} (h : FillStep now f f') (hf : FillFrom env f) : Stretch f.lastPoint f'.lastPoint := by
  have hti := h.ti
  have hle := h.le
  have hstart := Nat.lt_div_mul_add (a := f.lastPoint.ts) week_pos
  rw [hf.week] at hti
  rw [hf.checkpoint] at hle
  have hnext : f'.ti ≤ f.lastPoint.ts / WEEK * WEEK + WEEK := by
    split_ifs at hti <;> omega
  have hdt : asInt128 ((f'.ti - f.lastCheckpoint : ℕ) : ℤ) = ((f'.lastPoint.ts - f.lastPoint.ts : ℕ) : ℤ) := by
    rw [hf.checkpoint, h.ts]
    refine asInt128_week ?_
    have hfloor := Nat.div_mul_le_self f.lastPoint.ts WEEK
    have hweek : WEEK ≤ MAX_TIME := by decide
    omega
  have hdecay := h.decay
  have hbias := h.bias
  rw [hdt] at hdecay hbias
  exact ⟨h.ts.symm ▸ hle, h.ts.symm ▸ hnext, h.blk.ge, hf.slope, hf.bias, hdecay, hbias⟩

/-- the round that did not reach the block time recorded its point, and the next one starts from there -/
theorem FillStep.next (h : FillStep env.timestamp f f') (hf : FillFrom env f) (hnow : f'.ti ≠ env.timestamp) :
    FillFrom env { f' with pointHistory := Function.update f'.pointHistory f'.epoch f'.lastPoint } := by
  have hti := h.ti
  refine ⟨Function.update_self .., h.lastCheckpoint.trans h.ts.symm, ?_, h.blk.trans_le hf.blk, h.nonneg.2, h.fits⟩
  have hboundary : f'.ti = f.lastPoint.ts / WEEK * WEEK + WEEK := by
    rw [hf.week] at hti
    split_ifs at hti <;> omega
  show f'.ti = f'.lastPoint.ts / WEEK * WEEK
  rw [h.ts, hboundary, ← Nat.succ_mul, Nat.mul_div_cancel _ week_pos]

/-- **The fill records stretches.** -/
theorem fillWeeks_stretches {rounds : ℕ} (hf : FillFrom env f) (h : fillWeeks sc env blockSlope rounds f = .ok f') (k : ℕ)
    (h1 : f.epoch ≤ k) (h2 : k < f'.epoch) : Stretch (f'.points k) (f'.points (k + 1)) := by
  induction rounds generalizing f with
  | zero =>
    cases h
    omega
  | succ rounds ih =>
    rw [fillWeeks] at h
    obtain ⟨g, hg, h⟩ := bind_ok.1 h
    have hstep := fillWeek_ok hg
    have hstretch := hstep.stretch hf
    have hepoch := hstep.epoch
    split_ifs at h with hnow
    · -- the last round: the new point gets the block number
      cases h
      obtain rfl : k = f.epoch := by
        have h2' : k < g.epoch := h2
        omega
      have hfirst : Function.update g.pointHistory g.epoch { g.lastPoint with blk := env.number } f.epoch = f.lastPoint := by
        rw [Function.update_of_ne (by omega), hstep.history, hf.recorded]
      have hlast : Function.update g.pointHistory g.epoch { g.lastPoint with blk := env.number } (f.epoch + 1) =
          { g.lastPoint with blk := env.number } := by
        rw [← hepoch, Function.update_self]
      show Stretch (Function.update g.pointHistory g.epoch _ f.epoch) (Function.update g.pointHistory g.epoch _ (f.epoch + 1))
      rw [hfirst, hlast]
      exact ⟨hstretch.ts, hstretch.week, hf.blk, hf.slope, hf.bias, hstretch.decay, hstretch.left⟩
    · have hnext := hstep.next hf hnow
      obtain ⟨hle, hfirst⟩ := fillWeeks_first h hnext.recorded
      rcases (by omega : k = f.epoch ∨ g.epoch ≤ k) with rfl | hk
      · have hold : f'.points f.epoch = f.lastPoint := by
          rcases Nat.eq_zero_or_pos rounds with rfl | hpos
          · cases h
            show Function.update (Function.update g.pointHistory g.epoch g.lastPoint) g.epoch g.lastPoint f.epoch = f.lastPoint
            rw [Function.update_idem, Function.update_of_ne (by omega), hstep.history, hf.recorded]
          · obtain ⟨hlt, hpoints⟩ := fillWeeks_old hpos h
            have hlt' : g.epoch < f'.epoch := hlt
            rw [Fill.points, Function.update_of_ne (by omega), hpoints _ (by show f.epoch ≤ g.epoch; omega)]
            show Function.update g.pointHistory g.epoch g.lastPoint f.epoch = f.lastPoint
            rw [Function.update_of_ne (by omega), hstep.history, hf.recorded]
        rw [hold, ← hepoch]
        exact hstretch.congr (congrArg Point.ts hfirst) (congrArg Point.blk hfirst)
      · exact ih hnext h hk

/-- the loop ends at the block, if its rounds reach it -/
theorem fillWeeks_now {rounds : ℕ} (hrounds : 0 < rounds) (hreach : env.timestamp ≤ f.ti + rounds * WEEK)
    (h : fillWeeks sc env blockSlope rounds f = .ok f') :
    f'.lastPoint.ts = env.timestamp ∧ f'.lastPoint.blk = env.number := by
  induction rounds generalizing f with
  | zero => exact absurd hrounds (lt_irrefl _)
  | succ rounds ih =>
    rw [fillWeeks] at h
    obtain ⟨g, hg, h⟩ := bind_ok.1 h
    have hstep := fillWeek_ok hg
    have hti := hstep.ti
    split_ifs at h with hnow
    · cases h
      exact ⟨hstep.ts.trans hnow, rfl⟩
    · have hnext : g.ti = f.ti + WEEK ∧ f.ti + WEEK < env.timestamp := by
        split_ifs at hti with hlate
        · exact absurd hti hnow
        · omega
      have hleft : env.timestamp ≤ g.ti + rounds * WEEK := by
        rw [hnext.1]
        linarith
      have hpos : 0 < rounds := by
        rcases Nat.eq_zero_or_pos rounds with rfl | hpos
        · omega
        · exact hpos
      exact ih (f := { g with pointHistory := Function.update g.pointHistory g.epoch g.lastPoint }) hpos hleft h

/-- the first checkpoint records one point, at the block -/
theorem fillHistory_first (h0 : s.epoch = 0) (h : fillHistory s env = .ok f) :
    f.epoch = 1 ∧ f.lastPoint.ts = env.timestamp ∧ f.lastPoint.blk = env.number := by
  obtain ⟨blockSlope, -, h⟩ := bind_ok.1 h
  rw [if_neg (by omega)] at h
  rw [fillWeeks] at h
  obtain ⟨g, hg, h⟩ := bind_ok.1 h
  have hstep := fillWeek_ok hg
  have hti := hstep.ti
  have hweek := Nat.lt_div_mul_add (a := env.timestamp) week_pos
  rw [if_pos (by dsimp only; omega)] at hti
  rw [if_pos hti] at h
  cases h
  exact ⟨hstep.epoch.trans (by rw [h0]), hstep.ts.trans hti, rfl⟩

/-! ## The global points -/

/-- the global history in the order of times and blocks, with the schedule empty up to its first checkpoint -/
structure GlobalClock (env : Env) (s : State) : Prop where
  first : (s.pointHistory 0).bias = 0 ∧ (s.pointHistory 0).slope = 0
  sorted : ∀ k, k < s.epoch → (s.pointHistory k).ts ≤ (s.pointHistory (k + 1)).ts ∧
    (s.pointHistory k).blk ≤ (s.pointHistory (k + 1)).blk
  stretches : ∀ k, 0 < k → k < s.epoch → Stretch (s.pointHistory k) (s.pointHistory (k + 1))
  last : Past env (lastPoint s)
  line : 0 ≤ (lastPoint s).slope ∧ IsInt128 (lastPoint s).bias
  quiet : ∀ w, s.epoch = 0 ∨ w ≤ (s.pointHistory 1).ts → s.slopeChanges w = 0

theorem GlobalClock.follows (h : GlobalClock env s) (hf : Follows env env') : GlobalClock env' s :=
  ⟨h.first, h.sorted, h.stretches, h.last.follows hf, h.line, h.quiet⟩

/-- the points up to the last one are in the order of times and blocks -/
theorem GlobalClock.mono (h : GlobalClock env s) {j k : ℕ} (hjk : j ≤ k) (hk : k ≤ s.epoch) :
    (s.pointHistory j).ts ≤ (s.pointHistory k).ts ∧ (s.pointHistory j).blk ≤ (s.pointHistory k).blk := by
  induction k, hjk using Nat.le_induction with
  | base => exact ⟨le_rfl, le_rfl⟩
  | succ k _ ih =>
    obtain ⟨hts, hblk⟩ := ih (by omega)
    obtain ⟨hts', hblk'⟩ := h.sorted k (by omega)
    exact ⟨hts.trans hts', hblk.trans hblk'⟩

theorem SamePoints.globalClock (h : SamePoints s s') (hs : GlobalClock env s) : GlobalClock env s' := by
  have hlast : lastPoint s' = lastPoint s := by rw [lastPoint, lastPoint, h.epoch, h.pointHistory]
  refine ⟨?_, ?_, ?_, ?_, ?_, ?_⟩
  · rw [h.pointHistory]
    exact hs.first
  · rw [h.epoch, h.pointHistory]
    exact hs.sorted
  · rw [h.epoch, h.pointHistory]
    exact hs.stretches
  · rw [hlast]
    exact hs.last
  · rw [hlast]
    exact hs.line
  · rw [h.epoch, h.pointHistory, h.slopeChanges]
    exact hs.quiet

/-- a checkpoint schedules slope changes after the block only -/
theorem checkpointWith_schedule {info : CheckpointInfo} (h : checkpointWith s env info = .ok s') {w : ℕ}
    (hw : w ≤ env.timestamp) : s'.slopeChanges w = s.slopeChanges w := by
  unfold checkpointWith at h
  split_ifs at h
  · obtain ⟨f, -, h⟩ := bind_ok.1 h
    cases h
    rfl
  · obtain ⟨uOld, uNew, f, p, sc₁, sc₂, -, -, -, -, h1, h2, rfl⟩ := checkpointLock_ok h
    have hfirst : sc₁ w = s.slopeChanges w := by
      unfold rescheduleOld at h1
      split_ifs at h1 with hold
      · simp only [i128_bind, pure_ok] at h1
        obtain ⟨-, -, rfl⟩ := h1
        exact Function.update_of_ne (by omega) _ _
      · simp only [i128_bind, pure_ok] at h1
        obtain ⟨-, rfl⟩ := h1
        exact Function.update_of_ne (by omega) _ _
      · cases h1
        rfl
    show sc₂ w = s.slopeChanges w
    unfold scheduleNew at h2
    by_cases hnew : env.timestamp < info.newEnd ∧ info.oldEnd < info.newEnd
    · rw [if_pos hnew, i128_bind, pure_ok] at h2
      obtain ⟨-, rfl⟩ := h2
      rw [Function.update_of_ne (by omega), hfirst]
    · rw [if_neg hnew] at h2
      cases h2
      exact hfirst

/-- the last point of the fill is one of the past -/
theorem Fills.past (h : Fills s env s' f) (hs : GlobalClock env s) : Past env (lastPoint s') := by
  have hlast : f.points f.epoch = f.lastPoint := Function.update_self ..
  have hpast : Past env f.lastPoint := by
    rcases Nat.eq_zero_or_pos s.epoch with h0 | hpos
    · obtain ⟨-, hts, hblk⟩ := fillHistory_first h0 h.filled
      exact ⟨hts.le, hblk.le, fun _ => hts⟩
    · obtain ⟨hlt, -⟩ := fillHistory_old h.filled
      obtain ⟨blockSlope, -, hweeks⟩ := bind_ok.1 h.filled
      rw [if_pos hpos] at hweeks
      have hpoint := (fillWeeks_blocks (Nat.mul_mod_left _ _) hweeks).points f.epoch hlt le_rfl
      rw [hlast] at hpoint
      rcases hpoint with ⟨hts, hblk⟩ | ⟨hafter, halign, hbefore, hblk⟩
      · exact ⟨hts.le, hblk.le, fun _ => hts⟩
      · refine ⟨hbefore.le, hblk.trans_le hs.last.blk, fun heq => ?_⟩
        -- a block of the last point has its time, and no boundary lies between
        have hsame : (s.pointHistory s.epoch).ts = env.timestamp := hs.last.same (hblk.symm.trans heq)
        have hafter' : (s.pointHistory s.epoch).ts / WEEK * WEEK < f.lastPoint.ts := hafter
        simp only [WEEK] at hafter' halign
        omega
  exact ⟨h.ts.trans_le hpast.ts, h.blk.trans_le hpast.blk, fun heq => h.ts.trans (hpast.same (h.blk.symm.trans heq))⟩

/-- **A checkpoint keeps the global history in order.** -/
theorem checkpointWith_globalClock {info : CheckpointInfo} (h : checkpointWith s env info = .ok s')
    (hs : GlobalClock env s) : GlobalClock env s' := by
  have hext := checkpointWith_extends h
  obtain ⟨f, hf⟩ := checkpointWith_fills h
  obtain ⟨hlt, -⟩ := fillHistory_old hf.filled
  have hlt' : s.epoch < s'.epoch := hf.epoch ▸ hlt
  have hpast := hf.past hs
  -- what the loop recorded, after a first checkpoint
  have hnew : ∀ k, 0 < s.epoch → s.epoch ≤ k → k < s'.epoch → Stretch (s'.pointHistory k) (s'.pointHistory (k + 1)) := by
    intro k hpos h1 h2
    obtain ⟨blockSlope, -, hweeks⟩ := bind_ok.1 hf.filled
    rw [if_pos hpos] at hweeks
    have h2' : k < f.epoch := hf.epoch ▸ h2
    have hstretch := fillWeeks_stretches ⟨rfl, rfl, rfl, hs.last.blk, hs.line.1, hs.line.2⟩ hweeks k h1 h2'
    obtain ⟨hts, hblk⟩ := hf.point (k := k + 1) h2
    rw [Fill.points, Function.update_of_ne h2'.ne, ← hf.old k h2'] at hstretch
    exact hstretch.congr hts hblk
  have hstretches : ∀ k, 0 < k → k < s'.epoch → Stretch (s'.pointHistory k) (s'.pointHistory (k + 1)) := by
    intro k hpos hk
    rcases Nat.lt_or_ge k s.epoch with hold | hge
    · rw [hext.points k hold.le, hext.points (k + 1) hold]
      exact hs.stretches k hpos hold
    · refine hnew k ?_ hge hk
      by_contra h0
      have hone : s'.epoch = 1 := hf.epoch.trans (fillHistory_first (by omega) hf.filled).1
      omega
  have hsorted : ∀ k, k < s'.epoch → (s'.pointHistory k).ts ≤ (s'.pointHistory (k + 1)).ts ∧
      (s'.pointHistory k).blk ≤ (s'.pointHistory (k + 1)).blk := by
    intro k hk
    rcases Nat.eq_zero_or_pos k with rfl | hpos
    · rcases Nat.eq_zero_or_pos s.epoch with h0 | hpos
      · -- the first checkpoint: the deployment, then its own block
        obtain ⟨hone, hts, hblk⟩ := fillHistory_first h0 hf.filled
        have hlast : s'.pointHistory 1 = lastPoint s' := by rw [lastPoint, hf.epoch, hone]
        have hzero : lastPoint s = s.pointHistory 0 := by rw [lastPoint, h0]
        have hold := hs.last
        rw [hzero] at hold
        rw [hext.points 0 (Nat.zero_le _), hlast, hf.ts, hf.blk, hts, hblk]
        exact ⟨hold.ts, hold.blk⟩
      · rw [hext.points 0 (Nat.zero_le _), hext.points 1 hpos]
        exact hs.sorted 0 hpos
    · have hstretch := hstretches k hpos hk
      exact ⟨hstretch.ts, hstretch.blk⟩
  refine ⟨?_, hsorted, hstretches, hpast, ⟨hf.nonneg.2, hf.fits⟩, fun w hw => ?_⟩
  · rw [hext.points 0 (Nat.zero_le _)]
    exact hs.first
  · have hw1 : w ≤ (s'.pointHistory 1).ts := hw.resolve_left (by omega)
    rcases Nat.eq_zero_or_pos s.epoch with h0 | hpos
    · have hone : s'.epoch = 1 := hf.epoch.trans (fillHistory_first h0 hf.filled).1
      have hlast : lastPoint s' = s'.pointHistory 1 := by rw [lastPoint, hone]
      rw [checkpointWith_schedule h (hw1.trans (hlast ▸ hpast.ts))]
      exact hs.quiet w (.inl h0)
    · rw [hext.points 1 hpos] at hw1
      have hmono : (s.pointHistory 1).ts ≤ (lastPoint s).ts := (hs.mono hpos le_rfl).1
      rw [checkpointWith_schedule h (hw1.trans (hmono.trans hs.last.ts))]
      exact hs.quiet w (.inr hw1)

/-! ## The points of an NFT -/

/-- the `n` points of an NFT in the order of blocks, after an empty one -/
structure UserClock (env : Env) (n : ℕ) (u : ℕ → Point) : Prop where
  first : u 0 = ⟨0, 0, 0, 0⟩
  sorted : ∀ k, k < n → (u k).blk ≤ (u (k + 1)).blk
  past : ∀ k, k ≤ n → (u k).ts ≤ env.timestamp ∧ (u k).blk ≤ env.number
  lines : ∀ k, k ≤ n → IsInt128 (u k).bias ∧ (0 ≤ (u k).slope → 0 ≤ (u k).bias)
  bounded : n < USER_POINTS

variable {n : ℕ} {u : ℕ → Point}

theorem UserClock.follows (h : UserClock env n u) (hf : Follows env env') : UserClock env' n u :=
  ⟨h.first, h.sorted, fun k hk => ⟨(h.past k hk).1.trans hf.timestamp, (h.past k hk).2.trans hf.number⟩, h.lines, h.bounded⟩

theorem UserClock.mono (h : UserClock env n u) {j k : ℕ} (hjk : j ≤ k) (hk : k ≤ n) : (u j).blk ≤ (u k).blk := by
  induction k, hjk using Nat.le_induction with
  | base => exact le_rfl
  | succ k _ ih => exact (ih (by omega)).trans (h.sorted k (by omega))

/-- a point of the block is recorded -/
theorem UserClock.push (h : UserClock env n u) {p : Point} (hts : p.ts = env.timestamp) (hblk : p.blk = env.number)
    (hline : IsInt128 p.bias ∧ (0 ≤ p.slope → 0 ≤ p.bias)) (hn : n + 1 < USER_POINTS) :
    UserClock env (n + 1) (Function.update u (n + 1) p) := by
  have hold : ∀ k, k ≤ n → Function.update u (n + 1) p k = u k := fun k hk => Function.update_of_ne (by omega) _ _
  have hnew : Function.update u (n + 1) p (n + 1) = p := Function.update_self ..
  have hcases : ∀ k, k ≤ n + 1 → k ≤ n ∨ k = n + 1 := fun k hk => by omega
  refine ⟨(hold 0 (Nat.zero_le _)).trans h.first, fun k hk => ?_, fun k hk => ?_, fun k hk => ?_, hn⟩
  · rcases hcases (k + 1) hk with hk' | hk'
    · rw [hold k (by omega), hold (k + 1) hk']
      exact h.sorted k hk'
    · obtain rfl : k = n := by omega
      rw [hold k le_rfl, hnew, hblk]
      exact (h.past k le_rfl).2
  · rcases hcases k hk with hk' | rfl
    · rw [hold k hk']
      exact h.past k hk'
    · rw [hnew]
      exact ⟨hts.le, hblk.le⟩
  · rcases hcases k hk with hk' | rfl
    · rw [hold k hk']
      exact h.lines k hk'
    · rw [hnew]
      exact hline

/-- the point a checkpoint records for its lock -/
theorem checkpointLock_user {info : CheckpointInfo} (h : checkpointLock s env info = .ok s') :
    s.userPointEpoch info.tokenId + 1 < USER_POINTS ∧
      ∃ uNew, lockLine env.timestamp info.newDerivedAmount info.newEnd = .ok uNew ∧
        s'.userPointEpoch = Function.update s.userPointEpoch info.tokenId (s.userPointEpoch info.tokenId + 1) ∧
        s'.userPointHistory = update2 s.userPointHistory info.tokenId (s.userPointEpoch info.tokenId + 1)
          { slope := uNew.1, bias := uNew.2, ts := env.timestamp, blk := env.number } := by
  obtain ⟨uOld, uNew, f, p, sc₁, sc₂, -, hline, -, -, -, -, heq⟩ := checkpointLock_ok h
  refine ⟨?_, uNew, hline, by rw [heq], by rw [heq]⟩
  unfold checkpointLock at h
  obtain ⟨_, -, h⟩ := bind_ok.1 h
  obtain ⟨_, -, h⟩ := bind_ok.1 h
  obtain ⟨_, -, h⟩ := bind_ok.1 h
  obtain ⟨_, -, h⟩ := bind_ok.1 h
  obtain ⟨_, -, h⟩ := bind_ok.1 h
  obtain ⟨_, -, h⟩ := bind_ok.1 h
  simp only [uadd_bind, inBounds_bind] at h
  exact h.2.1

/-! ## Both histories -/

structure Clocked (env : Env) (s : State) : Prop where
  global : GlobalClock env s
  users : ∀ i, UserClock env (s.userPointEpoch i) (s.userPointHistory i)

theorem Clocked.follows (h : Clocked env s) (hf : Follows env env') : Clocked env' s :=
  ⟨h.global.follows hf, fun i => (h.users i).follows hf⟩

/-- **A checkpoint keeps both histories in order.** -/
theorem checkpointWith_clocked {info : CheckpointInfo} (hend : info.newEnd ≤ env.timestamp + MAX_TIME)
    (h : checkpointWith s env info = .ok s') (hs : Clocked env s) : Clocked env s' := by
  refine ⟨checkpointWith_globalClock h hs.global, fun i => ?_⟩
  unfold checkpointWith at h
  split_ifs at h
  · obtain ⟨f, -, h⟩ := bind_ok.1 h
    cases h
    exact hs.users i
  · obtain ⟨hbound, uNew, hline, hepoch, hhist⟩ := checkpointLock_user h
    rw [hepoch, hhist]
    by_cases hi : i = info.tokenId
    · subst hi
      rw [Function.update_self, update2_row]
      obtain ⟨hslope, hbias, hfits⟩ := lockLine_ok hend hline
      refine (hs.users _).push rfl rfl ⟨hfits, fun hnonneg => ?_⟩ hbound
      have hnonneg : 0 ≤ uNew.1 := hnonneg
      show 0 ≤ uNew.2
      rw [hbias]
      by_cases hlive : env.timestamp < info.newEnd
      · rw [hslope, if_pos hlive] at hnonneg
        exact mul_nonneg hnonneg (Int.natCast_nonneg _)
      · rw [Nat.sub_eq_zero_of_le (not_lt.1 hlive)]
        simp
    · rw [Function.update_of_ne hi, update2_of_ne hi]
      exact hs.users i

theorem exec_clocked {call : Call} (hnear : ∀ i, s.lockedEnd i ≤ env.timestamp + MAX_TIME)
    (h : exec cfg s env call = .ok s') (hs : Clocked env s) : Clocked env s' := by
  refine (exec_passes hnear h).keeps (J := Clocked env) ?_ hs
  rintro s₁ s₂ (hsame | ⟨info, -, hend, hc⟩) hs
  · refine ⟨hsame.globalClock hs.global, fun i => ?_⟩
    rw [hsame.userPointEpoch, hsame.userPointHistory]
    exact hs.users i
  · exact checkpointWith_clocked hend hc hs

theorem deploy_clocked (env : Env) (erc20 : Address → ERC20) (shady : Address) : Clocked env (deploy env erc20 shady) := by
  have hzero : IsInt128 0 := by decide
  have hpoints : 0 < USER_POINTS := by decide
  have hlast : lastPoint (deploy env erc20 shady) = ⟨0, 0, env.timestamp, env.number⟩ := by
    simp [lastPoint, deploy]
  refine ⟨⟨?_, fun k hk => absurd hk (Nat.not_lt_zero k), fun k _ hk => absurd hk (Nat.not_lt_zero k), ?_, ?_,
    fun _ _ => rfl⟩, fun i => ⟨rfl, fun k hk => absurd hk (Nat.not_lt_zero k), fun k _ => ⟨Nat.zero_le _, Nat.zero_le _⟩,
      fun k _ => ⟨hzero, fun _ => le_rfl⟩, hpoints⟩⟩
  · simp [deploy]
  · rw [hlast]
    exact ⟨le_rfl, le_rfl, fun _ => rfl⟩
  · rw [hlast]
    exact ⟨le_rfl, hzero⟩

/-! ## Runs -/

variable {env₀ : Env} {calls : List (Env × Call)}

/-- calls in blocks that follow each other, from the deployment to the block `env` -/
def InBlocks (env₀ : Env) (calls : List (Env × Call)) (env : Env) : Prop :=
  (env₀ :: (calls.map Prod.fst ++ [env])).Pairwise Follows

instance : Decidable (InBlocks env₀ calls env) := inferInstanceAs (Decidable (List.Pairwise _ _))

/-- what calls in order keep, from one block to the next, holds at the end -/
theorem InBlocks.keeps {I : Env → State → Prop} {P : State → Env × Call → Prop} (hb : InBlocks env₀ calls env)
    (hmono : ∀ e e' s, Follows e e' → I e s → I e' s)
    (hstep : ∀ e s c s', I e s → Follows e c.1 → P s c → execIn cfg s c = .ok s' → I c.1 s') (hI : I env₀ s)
    (hP : Along (execIn cfg) P s calls) : I env (run (execIn cfg) s calls) := by
  obtain ⟨hstart, hrest⟩ := List.pairwise_cons.1 hb
  obtain ⟨hcalls, -, hend⟩ := List.pairwise_append.1 hrest
  have hlast : env ∈ calls.map Prod.fst ++ [env] := by simp
  have hcall : ∀ c ∈ calls, c.1 ∈ calls.map Prod.fst := fun c hc => List.mem_map_of_mem hc
  exact run_until (execIn cfg) Prod.fst Follows hmono hstep calls s env₀ env hI (hstart env hlast)
    (fun c hc => ⟨hstart _ (List.mem_append_left _ (hcall c hc)), hend _ (hcall c hc) env (List.mem_singleton_self _)⟩)
    (List.pairwise_map.1 hcalls) hP

/-- **The histories are in order after every run.** -/
theorem run_clocked (hb : InBlocks env₀ calls env) {erc20 : Address → ERC20} (shady : Address)
    (hfresh : ∀ token spender, (erc20 token).allowance cfg.self spender = 0) :
    Clocked env (run (execIn cfg) (deploy env₀ erc20 shady) calls) := by
  refine (hb.keeps (I := fun e s => Orderly cfg e.timestamp s ∧ Clocked e s) ?_ ?_
    ⟨deploy_orderly env₀ shady hfresh, deploy_clocked env₀ erc20 shady⟩ (along_true _ _ _)).2
  · rintro e e' s hf ⟨ho, hs⟩
    exact ⟨ho.mono hf.timestamp, hs.follows hf⟩
  · rintro e s c s' ⟨ho, hs⟩ hf - h
    exact ⟨ho.step hf.timestamp h, exec_clocked (ho.mono hf.timestamp).near h (hs.follows hf)⟩

/-! ## Global points for the points of the NFTs -/

/-- every point of an NFT was recorded with a global point of the same block -/
def Twinned (s : State) : Prop :=
  ∀ i k, 0 < k → k ≤ s.userPointEpoch i → ∃ j, j ≤ s.epoch ∧
    (s.pointHistory j).ts = (s.userPointHistory i k).ts ∧ (s.pointHistory j).blk = (s.userPointHistory i k).blk

theorem SamePoints.timely (h : SamePoints s s') (ht : Timely s env) : Timely s' env := by
  have hlast : lastPoint s' = lastPoint s := by rw [lastPoint, lastPoint, h.epoch, h.pointHistory]
  have hstart : startTs s' env = startTs s env := by rw [startTs, startTs, h.epoch, hlast]
  exact ⟨by rw [hlast]; exact ht.ordered, by rw [hstart]; exact ht.within⟩

theorem SamePoints.twinned (h : SamePoints s s') (hs : Twinned s) : Twinned s' := by
  rw [Twinned, h.epoch, h.pointHistory, h.userPointEpoch, h.userPointHistory]
  exact hs

/-- a checkpoint in time ends at its block -/
theorem Fills.now (h : Fills s env s' f) (ht : Timely s env) :
    (lastPoint s').ts = env.timestamp ∧ (lastPoint s').blk = env.number := by
  obtain ⟨blockSlope, -, hweeks⟩ := bind_ok.1 h.filled
  have hwithin := ht.within
  rw [h.ts, h.blk]
  refine fillWeeks_now (by decide) ?_ hweeks
  unfold startTs at hwithin
  split_ifs at hwithin ⊢ <;> exact hwithin

theorem checkpointWith_twinned {info : CheckpointInfo} (h : checkpointWith s env info = .ok s') (ht : Timely s env)
    (hs : Twinned s) : Timely s' env ∧ Twinned s' := by
  have hext := checkpointWith_extends h
  obtain ⟨f, hf⟩ := checkpointWith_fills h
  obtain ⟨hts, hblk⟩ := hf.now ht
  refine ⟨timely_after hts, fun i k hpos hk => ?_⟩
  rcases le_or_gt k (s.userPointEpoch i) with hold | hnew
  · obtain ⟨j, hj, hj1, hj2⟩ := hs i k hpos hold
    refine ⟨j, hj.trans hext.epoch_le, ?_, ?_⟩
    · rw [hext.points j hj, hext.userPoints i k hold, hj1]
    · rw [hext.points j hj, hext.userPoints i k hold, hj2]
  · -- a new point is of this block, as the last global point
    refine ⟨s'.epoch, le_rfl, hts.trans (hext.newPoints i k hnew hk).symm, hblk.trans ?_⟩
    unfold checkpointWith at h
    split_ifs at h
    · obtain ⟨_, -, h⟩ := bind_ok.1 h
      cases h
      exact absurd hk (not_le.2 hnew)
    · obtain ⟨-, uNew, -, hepoch, hhist⟩ := checkpointLock_user h
      rw [hepoch] at hk
      rw [hhist]
      by_cases hi : i = info.tokenId
      · subst hi
        rw [Function.update_self] at hk
        obtain rfl : k = s.userPointEpoch info.tokenId + 1 := by omega
        rw [update2_row, Function.update_self]
      · rw [Function.update_of_ne hi] at hk
        omega

theorem exec_twinned {c : Env × Call} (ho : Orderly cfg c.1.timestamp s) (ht : InTime s c) (h : execIn cfg s c = .ok s')
    (hs : Twinned s) : Twinned s' := by
  obtain ⟨env, call⟩ := c
  by_cases hc : call.checkpoints = true
  · refine ((exec_passes ho.near h).keeps (J := fun s => Timely s env ∧ Twinned s) ?_ ⟨⟨ht.1, ht.2 hc⟩, hs⟩).2
    rintro s₁ s₂ (hsame | ⟨info, -, -, hc⟩) ⟨ht, hs⟩
    · exact ⟨hsame.timely ht, hsame.twinned hs⟩
    · exact checkpointWith_twinned hc ht hs
  · exact (exec_samePoints (by simpa using hc) h).twinned hs

theorem run_twinned (hb : InBlocks env₀ calls env) {erc20 : Address → ERC20} (shady : Address)
    (hfresh : ∀ token spender, (erc20 token).allowance cfg.self spender = 0)
    (hcalls : AlongOk (execIn cfg) InTime (deploy env₀ erc20 shady) calls) :
    Twinned (run (execIn cfg) (deploy env₀ erc20 shady) calls) := by
  refine (hb.keeps (I := fun e s => Orderly cfg e.timestamp s ∧ Twinned s) ?_ ?_
    ⟨deploy_orderly env₀ shady hfresh, fun _ k hpos hk => absurd hpos (not_lt.2 hk)⟩ hcalls).2
  · rintro e e' s hf ⟨ho, hs⟩
    exact ⟨ho.mono hf.timestamp, hs⟩
  · rintro e s c s' ⟨ho, hs⟩ hf ht h
    exact ⟨ho.step hf.timestamp h, exec_twinned (ho.mono hf.timestamp) (ht ⟨s', h⟩) h hs⟩

end SimContracts.Ve
