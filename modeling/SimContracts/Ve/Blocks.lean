/-
Block numbers of the global points. A checkpoint after a gap records the week boundaries it passes, and is meant to
estimate the block of each from the number of blocks per second since the last point. The estimate starts from
`initialLastPoint`, which is a reference to the point under change: at every round its time is already the boundary, so
nothing is added, and every boundary passed gets the block of the last point.

Results:
  fillWeek_ok          what one round computes and checks
  fillWeeks_blocks     the boundaries the loop records, and their blocks
  interpolated_blocks  the recorded blocks are the estimates exactly if no block is due at the last boundary passed
-/
import SimContracts.Ve.Runs

namespace SimContracts.Ve

open Solidity

variable {cfg : Config} {s s' : State} {env : Env} {sc : ℕ → ℤ} {blockSlope : ℕ} {f f' : Fill}

/-! ## One round -/

/-- a round goes to the next boundary or to now, along the line of the point; it keeps the point's block -/
structure FillStep (now : ℕ) (f f' : Fill) : Prop where
  ti : f'.ti = if now < f.ti + WEEK then now else f.ti + WEEK
  ts : f'.lastPoint.ts = f'.ti
  lastCheckpoint : f'.lastCheckpoint = f'.ti
  le : f.lastCheckpoint ≤ f'.ti
  blk : f'.lastPoint.blk = f.lastPoint.blk
  epoch : f'.epoch = f.epoch + 1
  history : f'.pointHistory = f.pointHistory
  decay : IsInt128 (f.lastPoint.slope * asInt128 (f'.ti - f.lastCheckpoint : ℕ))
  bias : IsInt128 (f.lastPoint.bias - f.lastPoint.slope * asInt128 (f'.ti - f.lastCheckpoint : ℕ))
  nonneg : 0 ≤ f'.lastPoint.bias ∧ 0 ≤ f'.lastPoint.slope
  fits : IsInt128 f'.lastPoint.bias

theorem fillWeek_ok {now : ℕ} (h : fillWeek sc now blockSlope f = .ok f') : FillStep now f f' := by
  simp only [fillWeek, uadd_bind, usub_bind, i128_bind, umul_bind, pure_ok] at h
  obtain ⟨-, hdt, hdecay, hbias, -, -, -, -, -, rfl⟩ := h
  refine ⟨rfl, rfl, rfl, hdt, ?_, rfl, rfl, hdecay, hbias, ⟨le_max_right _ _, le_max_right _ _⟩, isInt128_positive hbias⟩
  -- the seconds since `initialLastPoint` are none
  show f.lastPoint.blk + blockSlope * (_ - _) / MULTIPLIER = f.lastPoint.blk
  simp

/-! ## The loop -/

/-- the history with the point that is not recorded yet -/
def Fill.points (f : Fill) : ℕ → Point := Function.update f.pointHistory f.epoch f.lastPoint

/-- a point recorded before the loop goes on stays -/
theorem fillWeeks_first {rounds : ℕ} (h : fillWeeks sc env blockSlope rounds f = .ok f')
    (hpoint : f.pointHistory f.epoch = f.lastPoint) : f.epoch ≤ f'.epoch ∧ f'.points f.epoch = f.lastPoint := by
  rcases Nat.eq_zero_or_pos rounds with rfl | hpos
  · cases h
    exact ⟨le_rfl, Function.update_self ..⟩
  · obtain ⟨hlt, hold⟩ := fillWeeks_old hpos h
    refine ⟨hlt.le, ?_⟩
    rw [Fill.points, Function.update_of_ne hlt.ne, hold _ le_rfl, hpoint]

/-- what the loop records: boundaries with the block it started with, and the block time; of the boundaries within its
rounds all that are before now -/
structure FilledBlocks (env : Env) (rounds : ℕ) (f f' : Fill) : Prop where
  points : ∀ k, f.epoch < k → k ≤ f'.epoch →
    ((f'.points k).ts = env.timestamp ∧ (f'.points k).blk = env.number) ∨
      (f.ti < (f'.points k).ts ∧ (f'.points k).ts % WEEK = 0 ∧ (f'.points k).ts < env.timestamp ∧
        (f'.points k).blk = f.lastPoint.blk)
  reached : ∀ w, w % WEEK = 0 → f.ti < w → w < env.timestamp → w ≤ f.ti + rounds * WEEK →
    ∃ k, f.epoch < k ∧ k ≤ f'.epoch ∧ (f'.points k).ts = w

theorem fillWeeks_blocks {rounds : ℕ} (halign : f.ti % WEEK = 0)
    (h : fillWeeks sc env blockSlope rounds f = .ok f') : FilledBlocks env rounds f f' := by
  induction rounds generalizing f with
  | zero =>
    cases h
    exact ⟨fun k h1 h2 => absurd h2 (not_le.2 h1), fun w _ h1 _ h2 => by omega⟩
  | succ rounds ih =>
    rw [fillWeeks] at h
    obtain ⟨g, hg, h⟩ := bind_ok.1 h
    have hstep := fillWeek_ok hg
    have hti := hstep.ti
    have hepoch := hstep.epoch
    split_ifs at h with hnow
    · -- the block time: no boundary lies before it
      cases h
      constructor
      · intro k h1 h2
        obtain rfl : k = g.epoch := by
          have h2' : k ≤ g.epoch := h2
          omega
        left
        rw [Fill.points, Function.update_self]
        exact ⟨hstep.ts.trans hnow, rfl⟩
      · intro w hw h1 h2 _
        have hshort : env.timestamp ≤ f.ti + WEEK := by
          split_ifs at hti <;> omega
        simp only [WEEK] at hw halign hshort
        omega
    · -- a boundary before now: it is recorded, and the loop goes on
      have hnext : g.ti = f.ti + WEEK ∧ f.ti + WEEK < env.timestamp := by
        split_ifs at hti <;> omega
      have halign' : g.ti % WEEK = 0 := by
        rw [hnext.1]
        simp [halign]
      obtain ⟨hle, hfirst⟩ := fillWeeks_first h (Function.update_self ..)
      have hrest := ih (f := { g with pointHistory := Function.update g.pointHistory g.epoch g.lastPoint }) halign' h
      constructor
      · intro k h1 h2
        rcases (by omega : k = g.epoch ∨ g.epoch < k) with rfl | hlt
        · right
          rw [hfirst]
          show f.ti < g.lastPoint.ts ∧ g.lastPoint.ts % WEEK = 0 ∧ g.lastPoint.ts < env.timestamp ∧ _
          have := week_pos
          exact ⟨by rw [hstep.ts]; omega, by rw [hstep.ts]; exact halign', by rw [hstep.ts]; omega, hstep.blk⟩
        · refine (hrest.points k hlt h2).imp_right ?_
          rintro ⟨hafter, hweek, hbefore, hblk⟩
          have hafter' : g.ti < (f'.points k).ts := hafter
          exact ⟨by omega, hweek, hbefore, hblk.trans hstep.blk⟩
      · intro w hw h1 h2 h3
        have hfrom : g.ti ≤ w := by
          rw [hnext.1]
          simp only [WEEK] at hw halign ⊢
          omega
        rcases hfrom.eq_or_lt with rfl | hlt
        · exact ⟨g.epoch, by omega, hle, by rw [hfirst]; exact hstep.ts⟩
        · have hwithin : w ≤ g.ti + rounds * WEEK := by
            rw [hnext.1]
            linarith
          obtain ⟨k, hk1, hk2, hts⟩ := hrest.reached w hw hlt h2 hwithin
          have hk1' : g.epoch < k := hk1
          exact ⟨k, by omega, hk2, hts⟩

/-! ## One checkpoint -/

/-- what a checkpoint writes to the global history: the fill, with the last point's line changed -/
structure Fills (s : State) (env : Env) (s' : State) (f : Fill) : Prop where
  filled : fillHistory s env = .ok f
  epoch : s'.epoch = f.epoch
  old : ∀ k, k < f.epoch → s'.pointHistory k = f.pointHistory k
  ts : (lastPoint s').ts = f.lastPoint.ts
  blk : (lastPoint s').blk = f.lastPoint.blk
  nonneg : 0 ≤ (lastPoint s').bias ∧ 0 ≤ (lastPoint s').slope
  fits : IsInt128 (lastPoint s').bias

theorem fillWeeks_nonneg {rounds : ℕ} (hrounds : 0 < rounds) (h : fillWeeks sc env blockSlope rounds f = .ok f') :
    (0 ≤ f'.lastPoint.bias ∧ 0 ≤ f'.lastPoint.slope) ∧ IsInt128 f'.lastPoint.bias := by
  induction rounds generalizing f with
  | zero => exact absurd hrounds (lt_irrefl _)
  | succ rounds ih =>
    rw [fillWeeks] at h
    obtain ⟨g, hg, h⟩ := bind_ok.1 h
    have hstep := fillWeek_ok hg
    split_ifs at h
    · cases h
      exact ⟨hstep.nonneg, hstep.fits⟩
    · rcases Nat.eq_zero_or_pos rounds with rfl | hpos
      · cases h
        exact ⟨hstep.nonneg, hstep.fits⟩
      · exact ih hpos h

theorem checkpointWith_fills {info : CheckpointInfo} (h : checkpointWith s env info = .ok s') :
    ∃ f, Fills s env s' f := by
  unfold checkpointWith at h
  split_ifs at h
  · obtain ⟨f, hf, h⟩ := bind_ok.1 h
    cases h
    have hlast : lastPoint { s with epoch := f.epoch, pointHistory := Function.update f.pointHistory f.epoch f.lastPoint } =
        f.lastPoint := Function.update_self ..
    obtain ⟨blockSlope, -, hweeks⟩ := bind_ok.1 hf
    obtain ⟨hnonneg, hfits⟩ := fillWeeks_nonneg (by decide) hweeks
    exact ⟨f, hf, rfl, fun k hk => Function.update_of_ne hk.ne _ _, by rw [hlast], by rw [hlast], by rwa [hlast],
      by rwa [hlast]⟩
  · obtain ⟨uOld, uNew, f, p, sc₁, sc₂, -, -, hf, hp, -, -, rfl⟩ := checkpointLock_ok h
    obtain ⟨-, hbias, hpoint⟩ := addLock_ok hp
    have hlast : Function.update f.pointHistory f.epoch p f.epoch = p := Function.update_self ..
    refine ⟨f, hf, rfl, fun k hk => Function.update_of_ne hk.ne _ _, ?_, ?_, ?_, ?_⟩
    · exact (congrArg Point.ts hlast).trans (by rw [hpoint])
    · exact (congrArg Point.blk hlast).trans (by rw [hpoint])
    · rw [lastPoint]
      dsimp only
      rw [hlast, hpoint]
      exact ⟨le_max_right _ _, le_max_right _ _⟩
    · rw [lastPoint]
      dsimp only
      rw [hlast, hpoint]
      exact isInt128_positive hbias

/-- the time and block of the recorded points are those of the fill -/
theorem Fills.point (h : Fills s env s' f) {k : ℕ} (hk : k ≤ s'.epoch) :
    (s'.pointHistory k).ts = (f.points k).ts ∧ (s'.pointHistory k).blk = (f.points k).blk := by
  rw [h.epoch] at hk
  rcases hk.lt_or_eq with hlt | rfl
  · rw [h.old k hlt, Fill.points, Function.update_of_ne hlt.ne]
    exact ⟨rfl, rfl⟩
  · rw [Fill.points, Function.update_self, ← h.ts, ← h.blk, lastPoint, h.epoch]
    exact ⟨rfl, rfl⟩

/-! ## The estimates -/

/-- the blocks due between the last point and a time, at the rate of blocks from the last point to now -/
def blocksDue (s : State) (env : Env) (t : ℕ) : ℕ :=
  MULTIPLIER * (env.number - (lastPoint s).blk) / (env.timestamp - (lastPoint s).ts) * (t - (lastPoint s).ts) / MULTIPLIER

/-- the last week boundary before a time -/
def boundaryBefore (t : ℕ) : ℕ := (t - 1) / WEEK * WEEK

theorem blocksDue_mono (s : State) (env : Env) {t t' : ℕ} (h : t ≤ t') : blocksDue s env t ≤ blocksDue s env t' :=
  Nat.div_le_div_right (Nat.mul_le_mul_left _ (Nat.sub_le_sub_right h _))

theorem le_boundaryBefore {w t : ℕ} (hw : w % WEEK = 0) (h : w < t) : w ≤ boundaryBefore t := by
  simp only [boundaryBefore, WEEK] at *
  omega

theorem boundaryBefore_lt {t : ℕ} (h : 0 < t) : boundaryBefore t < t := by
  simp only [boundaryBefore, WEEK]
  omega

/-- **Blocks of the boundaries passed.** In a checkpoint less than 255 weeks after the last point, every recorded
boundary strictly between the two has the estimated block exactly if no block is due at the last boundary before now. -/
theorem interpolated_blocks {info : CheckpointInfo} (hepoch : 0 < s.epoch)
    (hgap : env.timestamp < (lastPoint s).ts + 255 * WEEK) (h : checkpointWith s env info = .ok s') :
    (∀ k ti, s.epoch < k → k ≤ s'.epoch → (s'.pointHistory k).ts = ti → ti % WEEK = 0 → (lastPoint s).ts < ti →
        ti < env.timestamp → (s'.pointHistory k).blk = (lastPoint s).blk + blocksDue s env ti) ↔
      blocksDue s env (boundaryBefore env.timestamp) = 0 := by
  obtain ⟨f, hf⟩ := checkpointWith_fills h
  obtain ⟨blockSlope, -, hweeks⟩ := bind_ok.1 hf.filled
  rw [if_pos hepoch] at hweeks
  have hblocks := fillWeeks_blocks (Nat.mul_mod_left _ _) hweeks
  have hblk : ∀ k, s.epoch < k → k ≤ s'.epoch → (s'.pointHistory k).ts < env.timestamp →
      (s'.pointHistory k).blk = (lastPoint s).blk := by
    intro k h1 h2 hts
    rw [(hf.point h2).1] at hts
    rw [(hf.point h2).2]
    rcases hblocks.points k h1 (hf.epoch ▸ h2) with ⟨hnow, -⟩ | ⟨-, -, -, hblk⟩
    · omega
    · exact hblk
  constructor
  · intro hall
    by_contra hdue
    have hlt : (lastPoint s).ts < boundaryBefore env.timestamp := by
      by_contra hle
      exact hdue (by rw [blocksDue, Nat.sub_eq_zero_of_le (not_lt.1 hle), Nat.mul_zero, Nat.zero_div])
    have hpos : 0 < env.timestamp := by
      by_contra h0
      rw [Nat.eq_zero_of_not_pos h0] at hlt
      simp [boundaryBefore] at hlt
    have hnow := boundaryBefore_lt hpos
    have hstart := Nat.lt_div_mul_add (a := (lastPoint s).ts) week_pos
    have hmod : boundaryBefore env.timestamp % WEEK = 0 := Nat.mul_mod_left _ _
    obtain ⟨k, hk1, hk2, hts⟩ := hblocks.reached (boundaryBefore env.timestamp) hmod
      (lt_of_le_of_lt (Nat.div_mul_le_self _ _) hlt) hnow (by
        show _ ≤ (lastPoint s).ts / WEEK * WEEK + 255 * WEEK
        simp only [boundaryBefore, WEEK] at *
        omega)
    have hk2' : k ≤ s'.epoch := hf.epoch ▸ hk2
    have hts' := (hf.point hk2').1.trans hts
    have hclaim := hall k _ hk1 hk2' hts' hmod hlt hnow
    rw [hblk k hk1 hk2' (hts'.symm ▸ hnow)] at hclaim
    omega
  · intro hzero k ti h1 h2 hts hweek _ hnow
    have hle := blocksDue_mono s env (le_boundaryBefore hweek hnow)
    rw [hblk k h1 h2 (hts.symm ▸ hnow)]
    omega

/-- a chain that made one block in the two weeks since the lock: no block is due at the boundaries passed -/
theorem interpolated_blocks_halted :
    let s := run (execIn exampleConfig) exampleDeploy [oneLock]
    let env : Env := ⟨102 * WEEK + 5, (lastPoint s).blk + 1, 1, 99⟩
    ∃ s', checkpointWith s env ⟨0, 0, 0, 0, 0⟩ = .ok s' ∧ s'.epoch = 4 ∧
      ∀ k ti, s.epoch < k → k ≤ s'.epoch → (s'.pointHistory k).ts = ti → ti % WEEK = 0 → (lastPoint s).ts < ti →
        ti < env.timestamp → (s'.pointHistory k).blk = (lastPoint s).blk + blocksDue s env ti := by
  intro s env
  have hok : (checkpointWith s env ⟨0, 0, 0, 0, 0⟩).failure = none := by decide +kernel
  have hepoch : (checkpointWith s env ⟨0, 0, 0, 0, 0⟩).map State.epoch = .ok 4 := by decide +kernel
  obtain ⟨s', h⟩ := Res.failure_none hok
  rw [h] at hepoch
  exact ⟨s', h, Except.ok.inj hepoch,
    (interpolated_blocks (by decide +kernel) (by decide +kernel) h).2 (by decide +kernel)⟩

/-- With a block every 12 seconds, two weeks after the lock: 50399 blocks were made until the first boundary passed, but
the point recorded for it has the block of the lock. -/
theorem boundary_block_stale :
    let s := run (execIn exampleConfig) exampleDeploy [oneLock]
    let env := exampleEnv (102 * WEEK + 5)
    s.epoch = 1 ∧ env.timestamp < (lastPoint s).ts + 255 * WEEK ∧ (lastPoint s).blk = 5040000 ∧
      (checkpointWith s env ⟨0, 0, 0, 0, 0⟩).map (fun s' => (s'.epoch, s'.pointHistory 2)) =
        .ok (4, ⟨187499999999999998281600, 103339947089947089, 101 * WEEK, 5040000⟩) ∧
      (lastPoint s).blk + blocksDue s env (101 * WEEK) = 5090399 := by
  decide +kernel

end SimContracts.Ve
