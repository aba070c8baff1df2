/-
The weekly fill of the global history. A point is on the curve of a set of locks if its bias and slope are the total
power and the total live slope at its time; slope changes are scheduled for the locks if at every later week boundary
they take off the slopes that end there. From a point on the curve the fill moves along it, week by week, and leaves a
point on the curve at every boundary passed and at the block time, provided the block is within 255 boundaries.

Results:
  fillWeek_onCurve    one round
  fillWeeks_succeeds  no check of the loop fails
  fillWeeks_onCurve   the whole loop: what it records, and the point it ends with
-/
import SimContracts.Core.Decay
import SimContracts.Ve.Model

namespace SimContracts.Ve

open Solidity Decay

theorem week_pos : 0 < WEEK := by decide

theorem asInt128_week {n : ℕ} (h : n ≤ MAX_TIME) : asInt128 n = n := by
  refine asInt128_eq ⟨?_, ?_⟩
  · have : (0 : ℤ) ≤ n := by positivity
    norm_num
  · have : n ≤ 9676800 := h
    norm_num
    omega

/-! ## Points and schedules -/

section Curve

variable (ids : Finset ℕ) (rate : ℕ → ℤ) (ends : ℕ → ℕ)

/-- the point has the total power and the live slope of the locks at its time -/
structure OnCurve (p : Point) : Prop where
  bias : p.bias = weight ids rate ends p.ts
  slope : p.slope = liveRate ids rate ends p.ts

/-- the slope changes after `T` are those of the locks: all ends are boundaries, no slope that is still to end is
negative -/
structure Scheduled (slopeChanges : ℕ → ℤ) (T : ℕ) : Prop where
  aligned : ∀ i ∈ ids, ends i % WEEK = 0
  nonneg : ∀ i ∈ ids, T < ends i → 0 ≤ rate i
  changes : ∀ w, T < w → slopeChanges w = -endingRate ids rate ends w

end Curve

variable {ids : Finset ℕ} {rate : ℕ → ℤ} {ends : ℕ → ℕ} {slopeChanges : ℕ → ℤ} {T now : ℕ}

theorem Scheduled.mono (h : Scheduled ids rate ends slopeChanges T) {T' : ℕ} (hle : T ≤ T') :
    Scheduled ids rate ends slopeChanges T' :=
  ⟨h.aligned, fun i hi hlive => h.nonneg i hi (by omega), fun w hw => h.changes w (by omega)⟩

/-- no lock ends strictly between a time and the next boundary -/
theorem ends_apart (h : Scheduled ids rate ends slopeChanges T) {week : ℕ} (hweek : week % WEEK = 0) (h1 : week ≤ T)
    (i : ℕ) (hi : i ∈ ids) : ends i ≤ T ∨ week + WEEK ≤ ends i := by
  have halign := h.aligned i hi
  simp only [WEEK] at *
  omega

theorem positiveInt128_of_nonneg {x : ℤ} (h : 0 ≤ x) : positiveInt128 x = x := max_eq_left h

theorem isInt128_positive {x : ℤ} (h : IsInt128 x) : IsInt128 (positiveInt128 x) := by
  have h1 := h.1
  have h2 := h.2
  constructor
  · exact h1.trans (le_max_left _ _)
  · exact max_lt h2 (by norm_num)

/-- the loop variables at the start of a round: a point on the curve, in the week of `ti` -/
structure FillAt (ids : Finset ℕ) (rate : ℕ → ℤ) (ends : ℕ → ℕ) (slopeChanges : ℕ → ℤ) (now : ℕ) (f : Fill) :
    Prop where
  scheduled : Scheduled ids rate ends slopeChanges f.lastPoint.ts
  onCurve : OnCurve ids rate ends f.lastPoint
  checkpoint : f.lastCheckpoint = f.lastPoint.ts
  aligned : f.ti % WEEK = 0
  week_le : f.ti ≤ f.lastPoint.ts
  lt_week : f.lastPoint.ts < f.ti + WEEK
  le_now : f.lastPoint.ts ≤ now

/-- the end of a round: the next boundary or now -/
def roundEnd (now : ℕ) (f : Fill) : ℕ := if now < f.ti + WEEK then now else f.ti + WEEK

/-- the curve at the end of a round, and the checks on the way there -/
structure Round (ids : Finset ℕ) (rate : ℕ → ℤ) (ends : ℕ → ℕ) (slopeChanges : ℕ → ℤ) (now : ℕ) (f : Fill) : Prop where
  forward : f.lastPoint.ts ≤ roundEnd now f
  short : roundEnd now f - f.lastPoint.ts ≤ MAX_TIME
  bias : f.lastPoint.bias - f.lastPoint.slope * ((roundEnd now f - f.lastPoint.ts : ℕ) : ℤ) =
    weight ids rate ends (roundEnd now f)
  slope : (f.lastPoint.slope + if now < f.ti + WEEK then 0 else slopeChanges (f.ti + WEEK)) =
    liveRate ids rate ends (roundEnd now f)
  falls : liveRate ids rate ends (roundEnd now f) ≤ f.lastPoint.slope
  nonneg : ∀ i ∈ ids, roundEnd now f < ends i → 0 ≤ rate i

/-- a round from a point on the curve goes along the curve: no lock ends before its end -/
theorem FillAt.round {f : Fill} (hf : FillAt ids rate ends slopeChanges now f) :
    Round ids rate ends slopeChanges now f := by
  have hsched := hf.scheduled
  have hnow := hf.le_now
  have hlt := hf.lt_week
  have hweek := hf.week_le
  have hmax : WEEK ≤ MAX_TIME := by decide
  have hforward : f.lastPoint.ts ≤ roundEnd now f := by
    unfold roundEnd
    split_ifs <;> omega
  have hshort : roundEnd now f ≤ f.ti + WEEK := by
    unfold roundEnd
    split_ifs <;> omega
  have hends : ∀ i ∈ ids, ends i ≤ f.lastPoint.ts ∨ roundEnd now f ≤ ends i := by
    intro i hi
    have := ends_apart hsched hf.aligned hweek i hi
    omega
  have hstep : (f.lastPoint.slope + if now < f.ti + WEEK then 0 else slopeChanges (f.ti + WEEK)) =
      liveRate ids rate ends (roundEnd now f) ∧ liveRate ids rate ends (roundEnd now f) ≤ f.lastPoint.slope := by
    rw [hf.onCurve.slope]
    by_cases hpart : now < f.ti + WEEK
    · -- the block is before the next boundary: nothing ends on the way
      have hstill : liveRate ids rate ends (roundEnd now f) = liveRate ids rate ends f.lastPoint.ts := by
        refine liveRate_still hforward fun i hi => ?_
        have := ends_apart hsched hf.aligned hweek i hi
        rw [roundEnd, if_pos hpart]
        omega
      rw [if_pos hpart, add_zero, hstill]
      exact ⟨rfl, le_rfl⟩
    · have hend : roundEnd now f = f.ti + WEEK := if_neg hpart
      have hending : 0 ≤ endingRate ids rate ends (f.ti + WEEK) := endingRate_nonneg hsched.nonneg hlt
      rw [hend] at hends
      rw [if_neg hpart, hend, hsched.changes _ hlt, liveRate_step hlt hends]
      exact ⟨by ring, by linarith⟩
  refine ⟨hforward, by omega, ?_, hstep.1, hstep.2, fun i hi hlive => hsched.nonneg i hi (by omega)⟩
  rw [hf.onCurve.bias, hf.onCurve.slope, weight_step hforward hends]

/-- **One round.** It ends on the curve, at the next boundary or at the block time. -/
theorem fillWeek_onCurve {f f' : Fill} {blockSlope : ℕ} (hf : FillAt ids rate ends slopeChanges now f)
    (h : fillWeek slopeChanges now blockSlope f = .ok f') :
    f'.ti = (if now < f.ti + WEEK then now else f.ti + WEEK) ∧ f'.lastPoint.ts = f'.ti ∧
      f'.lastCheckpoint = f'.ti ∧ f'.epoch = f.epoch + 1 ∧ f'.pointHistory = f.pointHistory ∧
      OnCurve ids rate ends f'.lastPoint ∧ IsInt128 f'.lastPoint.bias ∧ IsInt128 f'.lastPoint.slope := by
  simp only [fillWeek, uadd_bind, usub_bind, i128_bind, umul_bind, pure_ok] at h
  obtain ⟨-, -, -, hb, hsl, -, -, -, -, rfl⟩ := h
  refine ⟨rfl, rfl, rfl, rfl, rfl, ?_, isInt128_positive hb, isInt128_positive hsl⟩
  have hround := hf.round
  rw [hf.checkpoint]
  constructor
  · show positiveInt128 (f.lastPoint.bias - f.lastPoint.slope * asInt128 ((roundEnd now f - f.lastPoint.ts : ℕ) : ℤ)) =
      weight ids rate ends (roundEnd now f)
    rw [asInt128_week hround.short, hround.bias, positiveInt128_of_nonneg (weight_nonneg hround.nonneg)]
  · show positiveInt128 (f.lastPoint.slope + _) = liveRate ids rate ends (roundEnd now f)
    rw [hround.slope, positiveInt128_of_nonneg (liveRate_nonneg hround.nonneg)]

/-- a value between 0 and an `int128` is one -/
theorem isInt128_of_le {x y : ℤ} (h0 : 0 ≤ x) (hle : x ≤ y) (hy : IsInt128 y) : IsInt128 x :=
  ⟨le_trans (by norm_num) h0, lt_of_le_of_lt hle hy.2⟩

/-- **A round goes through**: on the curve no check fails. -/
theorem fillWeek_succeeds {f : Fill} (blockSlope : ℕ) (hf : FillAt ids rate ends slopeChanges now f)
    (hfits : IsInt128 f.lastPoint.bias ∧ IsInt128 f.lastPoint.slope) (hnow : now < 2 ^ 127)
    (hepoch : f.epoch + 1 < 2 ^ 256) (hblk : f.lastPoint.blk < 2 ^ 256) :
    Succeeds (fillWeek slopeChanges now blockSlope f) := by
  have hround := hf.round
  have hle_now := hf.le_now
  have hweek := hf.week_le
  have hover : f.ti + WEEK < 2 ^ 256 := by
    have : WEEK = 604800 := rfl
    omega
  have hslope0 : 0 ≤ f.lastPoint.slope := (liveRate_nonneg hround.nonneg).trans hround.falls
  have hweight0 := weight_nonneg hround.nonneg
  have hdecay0 : 0 ≤ f.lastPoint.slope * ((roundEnd now f - f.lastPoint.ts : ℕ) : ℤ) :=
    mul_nonneg hslope0 (Int.natCast_nonneg _)
  have hbias := hround.bias
  have hdecay : IsInt128 (f.lastPoint.slope * ((roundEnd now f - f.lastPoint.ts : ℕ) : ℤ)) :=
    isInt128_of_le hdecay0 (by linarith) hfits.1
  have hleft : IsInt128 (weight ids rate ends (roundEnd now f)) := isInt128_of_le hweight0 (by linarith) hfits.1
  have hlive : IsInt128 (liveRate ids rate ends (roundEnd now f)) :=
    isInt128_of_le (liveRate_nonneg hround.nonneg) hround.falls hfits.2
  have hforward := hround.forward
  have hshort := hround.short
  have hslope := hround.slope
  rw [fillWeek, uadd, Solidity.fits, if_pos hover, ok_bind]
  dsimp only
  rw [show (if now < f.ti + WEEK then now else f.ti + WEEK) = roundEnd now f from rfl, hf.checkpoint, usub,
    if_pos hforward, ok_bind, asInt128_week hshort, i128, if_pos hdecay, ok_bind, hbias, i128,
    if_pos hleft, ok_bind, hslope, i128, if_pos hlive, ok_bind]
  -- the block number does not change
  rw [usub, if_pos le_rfl, ok_bind, Nat.sub_self, umul, Nat.mul_zero, Solidity.fits, if_pos (by norm_num), ok_bind,
    uadd, Nat.zero_div, Nat.add_zero, Solidity.fits, if_pos hblk, ok_bind, uadd, Solidity.fits, if_pos hepoch, ok_bind]
  exact succeeds_pure _

/-- the round that ends before the block time records its boundary, and the next one starts from there -/
theorem FillAt.next {f f' : Fill} {blockSlope : ℕ} (hf : FillAt ids rate ends slopeChanges now f)
    (h : fillWeek slopeChanges now blockSlope f = .ok f') (hstop : f'.ti ≠ now) :
    (f'.ti = f.ti + WEEK ∧ f.ti + WEEK < now) ∧ FillAt ids rate ends slopeChanges now
      { f' with pointHistory := Function.update f'.pointHistory f'.epoch f'.lastPoint } := by
  obtain ⟨hti, hts, hcheck, -, -, hcurve, -⟩ := fillWeek_onCurve hf h
  have hle_now := hf.le_now
  have hlt := hf.lt_week
  have halign := hf.aligned
  have hnext : f'.ti = f.ti + WEEK ∧ f.ti + WEEK < now := by
    split_ifs at hti <;> omega
  refine ⟨hnext, hf.scheduled.mono ?_, hcurve, hcheck.trans hts.symm, ?_, hts.ge, ?_, ?_⟩
  · show f.lastPoint.ts ≤ f'.lastPoint.ts
    omega
  · show f'.ti % WEEK = 0
    rw [hnext.1]
    simp [halign]
  · show f'.lastPoint.ts < f'.ti + WEEK
    have := week_pos
    omega
  · show f'.lastPoint.ts ≤ now
    omega

/-- **The fill goes through.** -/
theorem fillWeeks_succeeds {env : Env} {f : Fill} (blockSlope rounds : ℕ)
    (hf : FillAt ids rate ends slopeChanges env.timestamp f)
    (hfits : IsInt128 f.lastPoint.bias ∧ IsInt128 f.lastPoint.slope) (hnow : env.timestamp < 2 ^ 127)
    (hepoch : f.epoch + rounds < 2 ^ 256) (hblk : f.lastPoint.blk < 2 ^ 256) :
    ∃ f', fillWeeks slopeChanges env blockSlope rounds f = .ok f' ∧ IsInt128 f'.lastPoint.bias ∧
      IsInt128 f'.lastPoint.slope := by
  induction rounds generalizing f with
  | zero => exact ⟨f, rfl, hfits⟩
  | succ rounds ih =>
    obtain ⟨g, hg⟩ := fillWeek_succeeds blockSlope hf hfits hnow (by omega) hblk
    obtain ⟨-, -, -, hepoch', -, -, hfits'⟩ := fillWeek_onCurve hf hg
    have hblk' : g.lastPoint.blk < 2 ^ 256 := by
      simp only [fillWeek, uadd_bind, usub_bind, i128_bind, umul_bind, pure_ok] at hg
      obtain ⟨-, -, -, -, -, -, -, hfit, -, rfl⟩ := hg
      exact hfit
    rw [fillWeeks, hg, ok_bind]
    by_cases hstop : g.ti = env.timestamp
    · rw [if_pos hstop]
      exact ⟨_, rfl, hfits'⟩
    · rw [if_neg hstop]
      obtain ⟨-, hnext⟩ := hf.next hg hstop
      exact ih hnext hfits' (by show g.epoch + rounds < 2 ^ 256; omega) hblk'

/-- what the loop leaves: a point on the curve at the block time, and before it one for every boundary passed -/
structure Filled (ids : Finset ℕ) (rate : ℕ → ℤ) (ends : ℕ → ℕ) (now : ℕ) (f f' : Fill) : Prop where
  ts : f'.lastPoint.ts = now
  onCurve : OnCurve ids rate ends f'.lastPoint
  fits : IsInt128 f'.lastPoint.bias ∧ IsInt128 f'.lastPoint.slope
  epoch_lt : f.epoch < f'.epoch
  old : ∀ k, k ≤ f.epoch → f'.pointHistory k = f.pointHistory k
  weeks : ∀ k, f.epoch < k → k < f'.epoch →
    (f'.pointHistory k).ts = f.ti + (k - f.epoch) * WEEK ∧ OnCurve ids rate ends (f'.pointHistory k)
  before_now : f.ti + (f'.epoch - f.epoch - 1) * WEEK < now ∨ f'.epoch = f.epoch + 1
  reaches_now : now ≤ f.ti + (f'.epoch - f.epoch) * WEEK

/-- **The fill.** Within reach of its rounds, the loop ends on the curve at the block time. -/
theorem fillWeeks_onCurve {env : Env} {blockSlope rounds : ℕ} {f f' : Fill}
    (hf : FillAt ids rate ends slopeChanges env.timestamp f) (hrounds : 0 < rounds)
    (hreach : env.timestamp ≤ f.ti + rounds * WEEK)
    (h : fillWeeks slopeChanges env blockSlope rounds f = .ok f') : Filled ids rate ends env.timestamp f f' := by
  induction rounds generalizing f with
  | zero => omega
  | succ rounds ih =>
    rw [fillWeeks] at h
    obtain ⟨g, hg, h⟩ := bind_ok.1 h
    obtain ⟨hti, hts, hcheck, hepoch, hhist, hcurve, hfits⟩ := fillWeek_onCurve hf hg
    have hle_now := hf.le_now
    split_ifs at h with hstop
    · cases h
      refine ⟨hts.trans hstop, ⟨hcurve.bias, hcurve.slope⟩, hfits, ?_, fun k _ => by rw [hhist], ?_, .inr hepoch, ?_⟩
      · show f.epoch < g.epoch
        omega
      · intro k h1 h2
        have h2' : k < g.epoch := h2
        omega
      · show env.timestamp ≤ f.ti + (g.epoch - f.epoch) * WEEK
        have hone : g.epoch - f.epoch = 1 := by omega
        rw [hone, Nat.one_mul]
        split_ifs at hti <;> omega
    · -- the boundary is recorded and the loop goes on from it
      obtain ⟨hnext, hg'⟩ := hf.next hg hstop
      have hpos : 0 < rounds := by
        rcases Nat.eq_zero_or_pos rounds with h0 | hpos
        · rw [h0] at hreach
          omega
        · exact hpos
      have hreach' : env.timestamp ≤ g.ti + rounds * WEEK := by
        rw [hnext.1]
        linarith
      have hrest := ih hg' hpos hreach' h
      have hlt := hrest.epoch_lt
      refine ⟨hrest.ts, hrest.onCurve, hrest.fits, ?_, ?_, ?_, ?_, ?_⟩
      · show f.epoch < f'.epoch
        have : g.epoch < f'.epoch := hlt
        omega
      · intro k hk
        rw [hrest.old k (by show k ≤ g.epoch; omega)]
        show Function.update g.pointHistory g.epoch g.lastPoint k = f.pointHistory k
        rw [Function.update_of_ne (by omega), hhist]
      · intro k h1 h2
        rcases (by omega : k = g.epoch ∨ g.epoch < k) with rfl | hgt
        · have hpoint : f'.pointHistory g.epoch = g.lastPoint :=
            (hrest.old g.epoch le_rfl).trans (Function.update_self ..)
          rw [hpoint]
          refine ⟨?_, hcurve⟩
          rw [hts, hnext.1, hepoch, Nat.add_sub_cancel_left, Nat.one_mul]
        · obtain ⟨hts', hcurve'⟩ := hrest.weeks k hgt h2
          refine ⟨?_, hcurve'⟩
          rw [hts']
          show g.ti + (k - g.epoch) * WEEK = f.ti + (k - f.epoch) * WEEK
          have hk : k - f.epoch = (k - g.epoch) + 1 := by omega
          rw [hnext.1, hk, Nat.add_mul]
          ring
      · left
        have hg_lt : g.epoch < f'.epoch := hlt
        have hk : f'.epoch - f.epoch - 1 = (f'.epoch - g.epoch - 1) + 1 := by omega
        rcases hrest.before_now with hb | hb
        · have hb' : g.ti + (f'.epoch - g.epoch - 1) * WEEK < env.timestamp := hb
          rw [hk, Nat.add_mul]
          omega
        · have hb' : f'.epoch = g.epoch + 1 := hb
          rw [hk, hb', Nat.add_sub_cancel_left, Nat.sub_self, Nat.zero_add, Nat.one_mul]
          exact hnext.2
      · have hr : env.timestamp ≤ g.ti + (f'.epoch - g.epoch) * WEEK := hrest.reaches_now
        have hg_lt : g.epoch < f'.epoch := hlt
        have hk : f'.epoch - f.epoch = (f'.epoch - g.epoch) + 1 := by omega
        rw [hk, Nat.add_mul]
        omega

end SimContracts.Ve
