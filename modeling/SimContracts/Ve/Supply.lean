/-
Global voting power against the power of the single locks, through one checkpoint.

`SupplyInv s derived ends` says that the last global point is the total of the locks given by `derived` and `ends`, that
the slope changes ahead are those of the locks, and that the last point of every NFT is its lock's own line. The locks
are arguments, not read from the state, because the contract writes a lock before it checkpoints the change.

Results:
  checkpointGlobal_inv, checkpointLock_inv   a checkpoint keeps the invariant; the second exchanges one lock
  totalSupplyAtT_eq, balanceOfNFTAt_eq       what the two views answer under the invariant, at any later time
-/
import SimContracts.Ve.Calls
import SimContracts.Ve.Fill

namespace SimContracts.Ve

open Solidity Decay

variable {s s' : State} {env : Env} {derived ends : ℕ → ℕ}

/-! ## The invariant -/

/-- the last global point -/
def lastPoint (s : State) : Point := s.pointHistory s.epoch

/-- all ids given out so far, and 0 -/
def ids (s : State) : Finset ℕ := Finset.range (s.tokenId + 1)

/-- the slope of each lock -/
def rateOf (derived : ℕ → ℕ) (i : ℕ) : ℤ := slopeOf (derived i)

theorem slopeOf_zero : slopeOf 0 = 0 := by decide

/-- the point is the line of a lock with this slope and end -/
structure LineAt (u : Point) (rate : ℤ) (lockEnd : ℕ) : Prop where
  slope : u.slope = if u.ts < lockEnd then rate else 0
  bias : u.bias = rate * ((lockEnd - u.ts : ℕ) : ℤ)
  fits : IsInt128 u.bias

/-- the last point of an NFT -/
def userPoint (s : State) (i : ℕ) : Point := s.userPointHistory i (s.userPointEpoch i)

structure SupplyInv (s : State) (derived ends : ℕ → ℕ) : Prop where
  unused : ∀ i, i = 0 ∨ s.tokenId < i → derived i = 0 ∧ s.userPointEpoch i = 0
  aligned : ∀ i, ends i % WEEK = 0
  ends_le : ∀ i, ends i ≤ (lastPoint s).ts + MAX_TIME
  onCurve : OnCurve (ids s) (rateOf derived) ends (lastPoint s)
  changes : ∀ w, (lastPoint s).ts < w → s.slopeChanges w = -endingRate (ids s) (rateOf derived) ends w
  users : ∀ i, (s.userPointEpoch i = 0 ∧ derived i = 0) ∨
    (0 < s.userPointEpoch i ∧ (userPoint s i).ts ≤ (lastPoint s).ts ∧ LineAt (userPoint s i) (rateOf derived i) (ends i))
  /-- before the first checkpoint there is no lock -/
  start : s.epoch = 0 → ∀ i, derived i = 0
  fits : IsInt128 (lastPoint s).bias ∧ IsInt128 (lastPoint s).slope

/-- no slope recorded for an NFT is negative: no derived amount was wrapped to a negative `int128` -/
def NoWrap (s : State) : Prop := ∀ i k, k ≤ s.userPointEpoch i → 0 ≤ (s.userPointHistory i k).slope

theorem SupplyInv.scheduled (h : SupplyInv s derived ends) (hw : NoWrap s) :
    Scheduled (ids s) (rateOf derived) ends s.slopeChanges (lastPoint s).ts := by
  refine ⟨fun i _ => h.aligned i, fun i _ hlive => ?_, h.changes⟩
  rcases h.users i with ⟨-, h0⟩ | ⟨-, hts, hline⟩
  · rw [rateOf, h0, slopeOf_zero]
  · have hslope := hw i _ le_rfl
    rw [show s.userPointHistory i (s.userPointEpoch i) = userPoint s i from rfl, hline.slope,
      if_pos (lt_of_le_of_lt hts hlive)] at hslope
    exact hslope

/-- a lock without power may be given any boundary in range as its end -/
theorem SupplyInv.setEnd (h : SupplyInv s derived ends) {i e : ℕ} (h0 : derived i = 0) (he : e % WEEK = 0)
    (hle : e ≤ (lastPoint s).ts + MAX_TIME) : SupplyInv s derived (Function.update ends i e) := by
  have hsame : ∀ j, rateOf derived j = 0 ∨ Function.update ends i e j = ends j := by
    intro j
    by_cases hj : j = i
    · left
      rw [hj, rateOf, h0, slopeOf_zero]
    · exact .inr (Function.update_of_ne hj _ _)
  have hends : ∀ (P : ℕ → Prop) (j : ℕ), P e → P (ends j) → P (Function.update ends i e j) := by
    intro P j h1 h2
    by_cases hj : j = i
    · subst hj
      rwa [Function.update_self]
    · rwa [Function.update_of_ne hj]
  refine ⟨h.unused, fun j => hends (· % WEEK = 0) j he (h.aligned j), fun j => hends (· ≤ _) j hle (h.ends_le j),
    ⟨?_, ?_⟩, fun w hw => ?_, fun j => ?_, h.start, h.fits⟩
  · rw [h.onCurve.bias, weight_congr fun j _ => hsame j]
  · rw [h.onCurve.slope, liveRate_congr fun j _ => hsame j]
  · rw [h.changes w hw, endingRate_congr fun j _ => hsame j]
  · rcases h.users j with hnew | ⟨hpos, hts, hline⟩
    · exact .inl hnew
    · refine .inr ⟨hpos, hts, ?_⟩
      rcases hsame j with hzero | heq
      · exact ⟨by rw [hline.slope, hzero, ite_self, ite_self], by rw [hline.bias, hzero, zero_mul, zero_mul], hline.fits⟩
      · rw [heq]
        exact hline

/-! ## Lines of locks -/

/-- slope and bias of a lock at the block, for an end in range -/
theorem lockLine_ok {now d e : ℕ} {u : ℤ × ℤ} (hle : e ≤ now + MAX_TIME) (h : lockLine now d e = .ok u) :
    u.1 = (if now < e then slopeOf d else 0) ∧ u.2 = slopeOf d * ((e - now : ℕ) : ℤ) ∧ IsInt128 u.2 := by
  unfold lockLine at h
  split_ifs at h with hlive
  · simp only [i128_bind, pure_ok] at h
    obtain ⟨hfits, hu⟩ := h
    rw [asInt128_week (by omega)] at hfits hu
    rw [← hu, if_pos hlive.1]
    simp only [true_and]
    exact hfits
  · cases h
    have hfits : IsInt128 0 := by decide
    rcases not_and_or.1 hlive with hover | hempty
    · rw [if_neg hover, Nat.sub_eq_zero_of_le (not_lt.1 hover)]
      exact ⟨rfl, by simp, hfits⟩
    · obtain rfl : d = 0 := by omega
      rw [slopeOf_zero, ite_self, zero_mul]
      exact ⟨rfl, rfl, hfits⟩

/-- the slope changes after a lock was rescheduled: its old slope no longer ends at its old end, its new slope ends at
its new end -/
theorem schedule_ok {sc sc₁ sc₂ : ℕ → ℤ} {now : ℕ} {info : CheckpointInfo} {oldSlope newSlope : ℤ}
    (hends : now < info.newEnd → info.oldEnd ≤ info.newEnd)
    (h1 : rescheduleOld sc now info oldSlope newSlope = .ok sc₁)
    (h2 : scheduleNew sc₁ now info newSlope (if info.newEnd ≠ 0 then sc info.newEnd else 0) = .ok sc₂) (w : ℕ)
    (hw : now < w) :
    sc₂ w = sc w + (if info.oldEnd = w then oldSlope else 0) - if info.newEnd = w then newSlope else 0 := by
  have hfirst : sc₁ w = sc w + (if info.oldEnd = w then oldSlope else 0) -
      if info.newEnd = w ∧ info.oldEnd = w then newSlope else 0 := by
    unfold rescheduleOld at h1
    by_cases hold : now < info.oldEnd
    · rw [if_pos hold, i128_bind] at h1
      obtain ⟨-, h1⟩ := h1
      by_cases hsame : info.newEnd = info.oldEnd
      · rw [if_pos hsame, i128_bind, pure_ok] at h1
        obtain ⟨-, rfl⟩ := h1
        by_cases hww : w = info.oldEnd
        · subst hww
          simp [hsame]
        · rw [Function.update_of_ne hww]
          simp [Ne.symm hww]
      · rw [if_neg hsame, pure_ok] at h1
        subst h1
        by_cases hww : w = info.oldEnd
        · subst hww
          simp [hsame]
        · rw [Function.update_of_ne hww]
          simp [Ne.symm hww]
    · rw [if_neg hold] at h1
      cases h1
      have hne : info.oldEnd ≠ w := by omega
      simp [hne]
  unfold scheduleNew at h2
  by_cases hnew : now < info.newEnd ∧ info.oldEnd < info.newEnd
  · rw [if_pos hnew, i128_bind, pure_ok] at h2
    obtain ⟨-, rfl⟩ := h2
    by_cases hww : w = info.newEnd
    · subst hww
      have hne : info.oldEnd ≠ info.newEnd := by omega
      have hpos : info.newEnd ≠ 0 := by omega
      simp [hne, hpos]
    · rw [Function.update_of_ne hww, hfirst]
      simp [Ne.symm hww]
  · rw [if_neg hnew] at h2
    cases h2
    rw [hfirst]
    by_cases hww : info.newEnd = w
    · have hold : info.oldEnd = w := by omega
      simp [hww, hold]
    · simp [hww]

/-! ## One checkpoint -/

/-- time of the point the fill starts from: the last one, or the block if there is none -/
def startTs (s : State) (env : Env) : ℕ := if 0 < s.epoch then (lastPoint s).ts else env.timestamp

/-- the block is not before the last checkpoint, and within 255 week boundaries of it -/
structure Timely (s : State) (env : Env) : Prop where
  ordered : (lastPoint s).ts ≤ env.timestamp
  within : env.timestamp ≤ startTs s env / WEEK * WEEK + 255 * WEEK

/-- the point the fill starts from -/
def startPoint (s : State) (env : Env) : Point :=
  if 0 < s.epoch then s.pointHistory s.epoch else ⟨0, 0, env.timestamp, env.number⟩

/-- the loop variables the fill starts with -/
def startFill (s : State) (env : Env) : Fill where
  ti := (startPoint s env).ts / WEEK * WEEK
  lastCheckpoint := (startPoint s env).ts
  lastPoint := startPoint s env
  epoch := s.epoch
  pointHistory := s.pointHistory

theorem startPoint_ts (s : State) (env : Env) : (startPoint s env).ts = startTs s env := by
  unfold startPoint startTs
  split_ifs <;> rfl

/-- the fill starts on the curve -/
theorem SupplyInv.fillAt (h : SupplyInv s derived ends) (hw : NoWrap s) (hordered : (lastPoint s).ts ≤ env.timestamp) :
    FillAt (ids s) (rateOf derived) ends s.slopeChanges env.timestamp (startFill s env) := by
  have hfloor : ∀ x, x / WEEK * WEEK ≤ x ∧ x < x / WEEK * WEEK + WEEK := by
    intro x
    have := Nat.lt_div_mul_add (a := x) week_pos
    exact ⟨Nat.div_mul_le_self _ _, by omega⟩
  by_cases h0 : 0 < s.epoch
  · have hstart : startPoint s env = lastPoint s := if_pos h0
    unfold startFill
    rw [hstart]
    exact ⟨h.scheduled hw, h.onCurve, rfl, Nat.mul_mod_left _ _, (hfloor _).1, (hfloor _).2, hordered⟩
  · -- the first checkpoint: no lock yet, so the point (0, 0) is on the curve at any time
    have hstart : startPoint s env = ⟨0, 0, env.timestamp, env.number⟩ := if_neg h0
    have hrate : ∀ i, rateOf derived i = 0 := fun i => by rw [rateOf, h.start (by omega), slopeOf_zero]
    unfold startFill
    rw [hstart]
    refine ⟨(h.scheduled hw).mono hordered, ⟨?_, ?_⟩, rfl, Nat.mul_mod_left _ _, (hfloor _).1, (hfloor _).2, le_rfl⟩
    · simp [weight, hrate]
    · simp [liveRate, hrate]

theorem fillHistory_filled (h : SupplyInv s derived ends) (hw : NoWrap s) (ht : Timely s env) {f : Fill}
    (hf : fillHistory s env = .ok f) :
    ∃ f₀, f₀.epoch = s.epoch ∧ f₀.pointHistory = s.pointHistory ∧ f₀.ti = startTs s env / WEEK * WEEK ∧
      Filled (ids s) (rateOf derived) ends env.timestamp f₀ f := by
  obtain ⟨blockSlope, -, hf⟩ := bind_ok.1 hf
  have hti : (startFill s env).ti = startTs s env / WEEK * WEEK := by rw [startFill, startPoint_ts]
  refine ⟨startFill s env, rfl, rfl, hti, fillWeeks_onCurve (h.fillAt hw ht.ordered) (by decide) ?_ hf⟩
  rw [hti]
  exact ht.within

/-- the checkpoint of no lock goes through, whatever the time since the last one -/
theorem fillHistory_succeeds (h : SupplyInv s derived ends) (hw : NoWrap s) (hts : (lastPoint s).ts ≤ env.timestamp)
    (hblk : (lastPoint s).blk ≤ env.number) (hnow : env.timestamp < 2 ^ 127) (hnum : env.number < 2 ^ 128)
    (hepoch : s.epoch + 255 < 2 ^ 256) :
    ∃ f, fillHistory s env = .ok f ∧ IsInt128 f.lastPoint.bias ∧ IsInt128 f.lastPoint.slope := by
  have hzero : IsInt128 0 := by decide
  have hstart : (startPoint s env).blk ≤ env.number ∧ IsInt128 (startPoint s env).bias ∧
      IsInt128 (startPoint s env).slope := by
    unfold startPoint
    split_ifs
    · exact ⟨hblk, h.fits⟩
    · exact ⟨le_rfl, hzero, hzero⟩
  have hslope : Succeeds (blockSlopeSince env (startPoint s env)) := by
    have hmul : MULTIPLIER * (env.number - (startPoint s env).blk) < 2 ^ 256 :=
      calc MULTIPLIER * (env.number - (startPoint s env).blk) ≤ MULTIPLIER * env.number :=
            Nat.mul_le_mul_left _ (Nat.sub_le _ _)
        _ ≤ MULTIPLIER * 2 ^ 128 := Nat.mul_le_mul_left _ hnum.le
        _ < 2 ^ 256 := by norm_num [MULTIPLIER]
    unfold blockSlopeSince
    split_ifs with hlater
    · rw [usub, if_pos hstart.1, ok_bind, umul, Solidity.fits, if_pos hmul, ok_bind, udiv, if_pos (by omega)]
      exact succeeds_ok _
    · exact succeeds_ok _
  obtain ⟨blockSlope, hslope⟩ := hslope
  have hstart_blk : (startFill s env).lastPoint.blk < 2 ^ 256 := lt_of_le_of_lt hstart.1 (by omega)
  obtain ⟨f, hf, hfits⟩ := fillWeeks_succeeds blockSlope 255 (h.fillAt hw hts) hstart.2 hnow hepoch hstart_blk
  refine ⟨f, ?_, hfits⟩
  show (blockSlopeSince env (startPoint s env) >>= fun blockSlope =>
    fillWeeks s.slopeChanges env blockSlope 255 (startFill s env)) = .ok f
  rw [hslope, ok_bind, hf]

/-- the state after a checkpoint starts where the last one ended -/
theorem timely_after (hts : (lastPoint s').ts = env.timestamp) : Timely s' env := by
  refine ⟨hts.le, ?_⟩
  have hstart : startTs s' env = env.timestamp := by
    unfold startTs
    split_ifs
    · exact hts
    · rfl
  rw [hstart]
  have := Nat.lt_div_mul_add (a := env.timestamp) week_pos
  have := week_pos
  omega

/-- the histories only grow, and what is recorded for an NFT is recorded at `now` -/
structure Extends (now : ℕ) (s s' : State) : Prop where
  epoch_le : s.epoch ≤ s'.epoch
  points : ∀ k, k ≤ s.epoch → s'.pointHistory k = s.pointHistory k
  userEpoch_le : ∀ i, s.userPointEpoch i ≤ s'.userPointEpoch i
  userPoints : ∀ i k, k ≤ s.userPointEpoch i → s'.userPointHistory i k = s.userPointHistory i k
  newPoints : ∀ i k, s.userPointEpoch i < k → k ≤ s'.userPointEpoch i → (s'.userPointHistory i k).ts = now

theorem Extends.refl (now : ℕ) (s : State) : Extends now s s :=
  ⟨le_rfl, fun _ _ => rfl, fun _ => le_rfl, fun _ _ _ => rfl, fun _ _ h1 h2 => absurd h2 (not_le.2 h1)⟩

theorem Extends.trans {now : ℕ} {s₁ s₂ s₃ : State} (h : Extends now s₁ s₂) (h' : Extends now s₂ s₃) :
    Extends now s₁ s₃ := by
  refine ⟨h.epoch_le.trans h'.epoch_le, fun k hk => ?_, fun i => (h.userEpoch_le i).trans (h'.userEpoch_le i),
    fun i k hk => ?_, fun i k h1 h2 => ?_⟩
  · exact (h'.points k (hk.trans h.epoch_le)).trans (h.points k hk)
  · exact (h'.userPoints i k (hk.trans (h.userEpoch_le i))).trans (h.userPoints i k hk)
  · rcases le_or_gt k (s₂.userPointEpoch i) with hk | hk
    · rw [h'.userPoints i k hk]
      exact h.newPoints i k h1 hk
    · exact h'.newPoints i k hk h2

theorem NoWrap.of_extends {now : ℕ} (h : Extends now s s') (hw : NoWrap s') : NoWrap s := by
  intro i k hk
  rw [← h.userPoints i k hk]
  exact hw i k (hk.trans (h.userEpoch_le i))

theorem fillWeek_epoch {sc : ℕ → ℤ} {now blockSlope : ℕ} {f f' : Fill} (h : fillWeek sc now blockSlope f = .ok f') :
    f'.epoch = f.epoch + 1 ∧ f'.pointHistory = f.pointHistory := by
  simp only [fillWeek, uadd_bind, usub_bind, i128_bind, umul_bind, pure_ok] at h
  obtain ⟨-, -, -, -, -, -, -, -, -, rfl⟩ := h
  exact ⟨rfl, rfl⟩

/-- the fill records new points only -/
theorem fillWeeks_old {sc : ℕ → ℤ} {blockSlope rounds : ℕ} {f f' : Fill} (hrounds : 0 < rounds)
    (h : fillWeeks sc env blockSlope rounds f = .ok f') :
    f.epoch < f'.epoch ∧ ∀ k, k ≤ f.epoch → f'.pointHistory k = f.pointHistory k := by
  induction rounds generalizing f with
  | zero => omega
  | succ rounds ih =>
    rw [fillWeeks] at h
    obtain ⟨g, hg, h⟩ := bind_ok.1 h
    obtain ⟨hepoch, hhist⟩ := fillWeek_epoch hg
    split_ifs at h
    · cases h
      exact ⟨by show f.epoch < g.epoch; omega, fun k _ => by rw [hhist]⟩
    · have hnew : ∀ k, k ≤ f.epoch → Function.update g.pointHistory g.epoch g.lastPoint k = f.pointHistory k := by
        intro k hk
        rw [Function.update_of_ne (by omega), hhist]
      rcases Nat.eq_zero_or_pos rounds with rfl | hpos
      · cases h
        exact ⟨by show f.epoch < g.epoch; omega, hnew⟩
      · obtain ⟨hlt, hold⟩ := ih hpos h
        have hlt' : g.epoch < f'.epoch := hlt
        exact ⟨by omega, fun k hk => (hold k (by show k ≤ g.epoch; omega)).trans (hnew k hk)⟩

theorem fillHistory_old {f : Fill} (h : fillHistory s env = .ok f) :
    s.epoch < f.epoch ∧ ∀ k, k ≤ s.epoch → f.pointHistory k = s.pointHistory k := by
  obtain ⟨blockSlope, -, h⟩ := bind_ok.1 h
  exact fillWeeks_old (by decide) h

/-- the global history with its new last point -/
theorem fillHistory_points {f : Fill} {p : Point} (h : fillHistory s env = .ok f) :
    s.epoch ≤ f.epoch ∧ ∀ k, k ≤ s.epoch → Function.update f.pointHistory f.epoch p k = s.pointHistory k := by
  obtain ⟨hlt, hold⟩ := fillHistory_old h
  refine ⟨hlt.le, fun k hk => ?_⟩
  rw [Function.update_of_ne (by omega)]
  exact hold k hk

theorem checkpointGlobal_extends (h : checkpointGlobal s env = .ok s') : Extends env.timestamp s s' := by
  obtain ⟨f, hf, hc⟩ := bind_ok.1 h
  cases hc
  obtain ⟨hle, hpoints⟩ := fillHistory_points (p := f.lastPoint) hf
  exact ⟨hle, hpoints, fun _ => le_rfl, fun _ _ _ => rfl, fun _ _ h1 h2 => absurd h2 (not_le.2 h1)⟩

/-- **A global checkpoint** keeps the invariant and moves the last point to the block. -/
theorem checkpointGlobal_inv (h : SupplyInv s derived ends) (hw : NoWrap s) (ht : Timely s env)
    (hc : checkpointGlobal s env = .ok s') :
    SupplyInv s' derived ends ∧ (lastPoint s').ts = env.timestamp := by
  obtain ⟨f, hf, hc⟩ := bind_ok.1 hc
  cases hc
  obtain ⟨f₀, hepoch, -, -, hfill⟩ := fillHistory_filled h hw ht hf
  have hlast : lastPoint { s with epoch := f.epoch, pointHistory := Function.update f.pointHistory f.epoch f.lastPoint } =
      f.lastPoint := Function.update_self ..
  have hlt := hfill.epoch_lt
  have hle := ht.ordered
  have hts := hfill.ts
  refine ⟨⟨h.unused, h.aligned, ?_, ?_, ?_, ?_, ?_, ?_⟩, ?_⟩
  · intro i
    have := h.ends_le i
    rw [hlast]
    omega
  · rw [hlast]
    exact hfill.onCurve
  · intro w hlater
    rw [hlast] at hlater
    exact h.changes w (by omega)
  · intro i
    rcases h.users i with hnew | ⟨hpos, hts', hline⟩
    · exact .inl hnew
    · refine .inr ⟨hpos, ?_, hline⟩
      rw [hlast, hts]
      exact hts'.trans hle
  · intro h0
    have h0' : f.epoch = 0 := h0
    omega
  · rw [hlast]
    exact hfill.fits
  · rw [hlast]
    exact hts

theorem addLock_ok {p p' : Point} {uOld uNew : ℤ × ℤ} (h : addLock p uOld uNew = .ok p') :
    IsInt128 (p.slope + (uNew.1 - uOld.1)) ∧ IsInt128 (p.bias + (uNew.2 - uOld.2)) ∧
      p' = { p with
        slope := positiveInt128 (p.slope + (uNew.1 - uOld.1))
        bias := positiveInt128 (p.bias + (uNew.2 - uOld.2)) } := by
  simp only [addLock, i128_bind, pure_ok] at h
  obtain ⟨-, h1, -, h2, rfl⟩ := h
  exact ⟨h1, h2, rfl⟩

theorem checkpointLock_extends {info : CheckpointInfo} (hc : checkpointLock s env info = .ok s') :
    Extends env.timestamp s s' := by
  obtain ⟨uOld, uNew, f, p, sc₁, sc₂, -, -, hf, -, -, -, rfl⟩ := checkpointLock_ok hc
  obtain ⟨hle, hpoints⟩ := fillHistory_points (p := p) hf
  refine ⟨hle, hpoints, ?_, ?_, ?_⟩
  · intro i
    show s.userPointEpoch i ≤ Function.update s.userPointEpoch info.tokenId _ i
    by_cases hi : i = info.tokenId
    · rw [hi, Function.update_self]
      omega
    · rw [Function.update_of_ne hi]
  · intro i k hk
    show update2 s.userPointHistory info.tokenId _ _ i k = s.userPointHistory i k
    unfold update2
    by_cases hi : i = info.tokenId
    · subst hi
      rw [Function.update_self, Function.update_of_ne (by omega)]
    · rw [Function.update_of_ne hi]
  · intro i k h1 h2
    have h2' : k ≤ Function.update s.userPointEpoch info.tokenId (s.userPointEpoch info.tokenId + 1) i := h2
    show (update2 s.userPointHistory info.tokenId _ _ i k).ts = env.timestamp
    unfold update2
    by_cases hi : i = info.tokenId
    · subst hi
      rw [Function.update_self] at h2'
      obtain rfl : k = s.userPointEpoch info.tokenId + 1 := by omega
      rw [Function.update_self, Function.update_self]
    · rw [Function.update_of_ne hi] at h2'
      omega

/-! ### One lock exchanged for another -/

/-- `derived'` and `ends'` have the new lock of a checkpoint where `derived` and `ends` have the old one -/
structure Exchanged (info : CheckpointInfo) (derived ends derived' ends' : ℕ → ℕ) : Prop where
  old : derived info.tokenId = info.oldDerivedAmount
  oldEnd : ends info.tokenId = info.oldEnd
  new : derived' info.tokenId = info.newDerivedAmount
  newEnd : ends' info.tokenId = info.newEnd
  derived_ne : ∀ j, j ≠ info.tokenId → derived' j = derived j
  ends_ne : ∀ j, j ≠ info.tokenId → ends' j = ends j

section Exchange

variable {info : CheckpointInfo} {derived' ends' : ℕ → ℕ} {J : Finset ℕ} {now : ℕ} {uOld uNew : ℤ × ℤ}

theorem exchanged_update (hold : derived info.tokenId = info.oldDerivedAmount) (holdEnd : ends info.tokenId = info.oldEnd) :
    Exchanged info derived ends (Function.update derived info.tokenId info.newDerivedAmount)
      (Function.update ends info.tokenId info.newEnd) :=
  ⟨hold, holdEnd, Function.update_self .., Function.update_self .., fun _ hj => Function.update_of_ne hj ..,
    fun _ hj => Function.update_of_ne hj ..⟩

theorem Exchanged.rate (hx : Exchanged info derived ends derived' ends') :
    rateOf derived info.tokenId = slopeOf info.oldDerivedAmount := by rw [rateOf, hx.old]

theorem Exchanged.newRate (hx : Exchanged info derived ends derived' ends') :
    rateOf derived' info.tokenId = slopeOf info.newDerivedAmount := by rw [rateOf, hx.new]

theorem Exchanged.rate_ne (hx : Exchanged info derived ends derived' ends') (j : ℕ) (hj : j ≠ info.tokenId) :
    rateOf derived' j = rateOf derived j := by rw [rateOf, rateOf, hx.derived_ne j hj]

/-- the point moves to the curve of the new locks -/
theorem Exchanged.onCurve {p p' : Point} (hx : Exchanged info derived ends derived' ends') (hmem : info.tokenId ∈ J)
    (hnonneg : ∀ i ∈ J, p.ts < ends' i → 0 ≤ rateOf derived' i) (hcurve : OnCurve J (rateOf derived) ends p)
    (hu : lockLine p.ts info.oldDerivedAmount info.oldEnd = .ok uOld) (hule : info.oldEnd ≤ p.ts + MAX_TIME)
    (hv : lockLine p.ts info.newDerivedAmount info.newEnd = .ok uNew) (hvle : info.newEnd ≤ p.ts + MAX_TIME)
    (hp : addLock p uOld uNew = .ok p') : OnCurve J (rateOf derived') ends' p' ∧ p'.ts = p.ts := by
  obtain ⟨hu1, hu2, -⟩ := lockLine_ok hule hu
  obtain ⟨hv1, hv2, -⟩ := lockLine_ok hvle hv
  obtain ⟨-, -, rfl⟩ := addLock_ok hp
  have hweight := weight_change hmem hx.rate_ne hx.ends_ne p.ts
  have hlive := liveRate_change hmem hx.rate_ne hx.ends_ne p.ts
  rw [hx.rate, hx.newRate, hx.newEnd, hx.oldEnd] at hweight hlive
  refine ⟨⟨?_, ?_⟩, rfl⟩
  · dsimp only
    rw [← positiveInt128_of_nonneg (weight_nonneg hnonneg), hweight, hu2, hv2, hcurve.bias]
  · dsimp only
    rw [← positiveInt128_of_nonneg (liveRate_nonneg hnonneg), hlive, hu1, hv1, hcurve.slope]

/-- the schedule follows the new locks -/
theorem Exchanged.changes {sc sc₁ sc₂ : ℕ → ℤ} (hx : Exchanged info derived ends derived' ends') (hmem : info.tokenId ∈ J)
    (hends : now < info.newEnd → info.oldEnd ≤ info.newEnd)
    (hu : uOld.1 = if now < info.oldEnd then slopeOf info.oldDerivedAmount else 0)
    (hv : uNew.1 = if now < info.newEnd then slopeOf info.newDerivedAmount else 0)
    (h1 : rescheduleOld sc now info uOld.1 uNew.1 = .ok sc₁)
    (h2 : scheduleNew sc₁ now info uNew.1 (if info.newEnd ≠ 0 then sc info.newEnd else 0) = .ok sc₂) {w : ℕ}
    (hlater : now < w) (hsc : sc w = -endingRate J (rateOf derived) ends w) :
    sc₂ w = -endingRate J (rateOf derived') ends' w := by
  have hending := endingRate_change hmem hx.rate_ne hx.ends_ne w
  rw [hx.rate, hx.newRate, hx.newEnd, hx.oldEnd] at hending
  have hold : (if info.oldEnd = w then uOld.1 else 0) = if info.oldEnd = w then slopeOf info.oldDerivedAmount else 0 := by
    split_ifs with heq
    · rw [hu, if_pos (by omega)]
    · rfl
  have hnew : (if info.newEnd = w then uNew.1 else 0) = if info.newEnd = w then slopeOf info.newDerivedAmount else 0 := by
    split_ifs with heq
    · rw [hv, if_pos (by omega)]
    · rfl
  rw [schedule_ok hends h1 h2 w hlater, hsc, hending, hold, hnew]
  ring

end Exchange

/-- **The checkpoint of a lock.** It exchanges the lock in the invariant and moves the last point to the block. -/
theorem checkpointLock_inv {info : CheckpointInfo} (h : SupplyInv s derived ends) (hw' : NoWrap s')
    (ht : Timely s env) (hid : info.tokenId ≠ 0) (hused : info.tokenId ≤ s.tokenId)
    (hold : derived info.tokenId = info.oldDerivedAmount) (holdEnd : ends info.tokenId = info.oldEnd)
    (halign : info.newEnd % WEEK = 0) (hle : info.newEnd ≤ env.timestamp + MAX_TIME)
    (hends : env.timestamp < info.newEnd → info.oldEnd ≤ info.newEnd) (hc : checkpointLock s env info = .ok s') :
    SupplyInv s' (Function.update derived info.tokenId info.newDerivedAmount)
      (Function.update ends info.tokenId info.newEnd) ∧ (lastPoint s').ts = env.timestamp := by
  have hw : NoWrap s := .of_extends (checkpointLock_extends hc) hw'
  obtain ⟨uOld, uNew, f, p, sc₁, sc₂, hu, hv, hf, hp, h1, h2, hs'⟩ := checkpointLock_ok hc
  obtain ⟨f₀, hepoch, -, -, hfill⟩ := fillHistory_filled h hw ht hf
  obtain ⟨hfit1, hfit2, hpeq⟩ := addLock_ok hp
  have hordered := ht.ordered
  have hule : info.oldEnd ≤ env.timestamp + MAX_TIME := by
    have := h.ends_le info.tokenId
    omega
  obtain ⟨hu1, -, -⟩ := lockLine_ok hule hu
  obtain ⟨hv1, hv2, hvfit⟩ := lockLine_ok hle hv
  have hmem : info.tokenId ∈ ids s := Finset.mem_range.2 (by omega)
  have hx : Exchanged info derived ends _ _ := exchanged_update hold holdEnd
  generalize hderived' : Function.update derived info.tokenId info.newDerivedAmount = derived' at hx ⊢
  generalize hends' : Function.update ends info.tokenId info.newEnd = ends' at hx ⊢
  -- the new slope of the lock is recorded, so it is not negative
  have hnew_nonneg : 0 ≤ uNew.1 := by
    have := hw' info.tokenId (s.userPointEpoch info.tokenId + 1) (by rw [hs']; simp)
    rw [hs'] at this
    simpa [update2] using this
  have hsched := (h.scheduled hw).mono hordered
  have hnonneg : ∀ i ∈ ids s, f.lastPoint.ts < ends' i → 0 ≤ rateOf derived' i := by
    intro i hi hlive
    rw [hfill.ts] at hlive
    by_cases hii : i = info.tokenId
    · subst hii
      rw [hx.newEnd] at hlive
      rw [hv1, if_pos hlive] at hnew_nonneg
      rwa [hx.newRate]
    · rw [hx.ends_ne i hii] at hlive
      rw [hx.rate_ne i hii]
      exact hsched.nonneg i hi hlive
  obtain ⟨hcurve, hpts⟩ := hx.onCurve hmem hnonneg hfill.onCurve (hfill.ts ▸ hu) (hfill.ts ▸ hule) (hfill.ts ▸ hv)
    (hfill.ts ▸ hle) hp
  have hlast : lastPoint s' = p := by
    rw [hs']
    exact Function.update_self ..
  have hts : (lastPoint s').ts = env.timestamp := by rw [hlast, hpts, hfill.ts]
  have hids : ids s' = ids s := by rw [hs']; rfl
  have huser : userPoint s' info.tokenId = { slope := uNew.1, bias := uNew.2, ts := env.timestamp, blk := env.number } := by
    rw [hs']
    simp [userPoint, update2]
  have huser_ne : ∀ i, i ≠ info.tokenId → s'.userPointEpoch i = s.userPointEpoch i ∧ userPoint s' i = userPoint s i := by
    intro i hi
    rw [hs']
    simp [userPoint, update2, Function.update_of_ne hi]
  have hlt := hfill.epoch_lt
  refine ⟨⟨?_, ?_, ?_, ?_, ?_, ?_, ?_, ?_⟩, hts⟩
  · intro i hi
    have hi' : i = 0 ∨ s.tokenId < i := by rwa [hs'] at hi
    have hne : i ≠ info.tokenId := by omega
    rw [(huser_ne i hne).1, hx.derived_ne i hne]
    exact h.unused i hi'
  · intro i
    by_cases hi : i = info.tokenId
    · rw [hi, hx.newEnd]
      exact halign
    · rw [hx.ends_ne i hi]
      exact h.aligned i
  · intro i
    rw [hts]
    by_cases hi : i = info.tokenId
    · rw [hi, hx.newEnd]
      exact hle
    · rw [hx.ends_ne i hi]
      have := h.ends_le i
      omega
  · rw [hlast, hids]
    exact hcurve
  · intro w hlater
    rw [hts] at hlater
    have hsc : s'.slopeChanges = sc₂ := by rw [hs']
    rw [hids, hsc]
    exact hx.changes hmem hends hu1 hv1 h1 h2 hlater (h.changes w (by omega))
  · intro i
    rw [hts]
    by_cases hi : i = info.tokenId
    · subst hi
      refine .inr ⟨?_, ?_, ?_⟩
      · rw [hs']
        simp
      · rw [huser]
      · rw [huser, hx.newRate, hx.newEnd]
        exact ⟨hv1, hv2, hvfit⟩
    · obtain ⟨he, hp'⟩ := huser_ne i hi
      rw [he, hp', hx.derived_ne i hi, hx.ends_ne i hi, hx.rate_ne i hi]
      rcases h.users i with hnone | ⟨hpos, hts', hline⟩
      · exact .inl hnone
      · exact .inr ⟨hpos, hts'.trans hordered, hline⟩
  · intro h0
    rw [hs'] at h0
    have h0' : f.epoch = 0 := h0
    omega
  · rw [hlast, hpeq]
    exact ⟨isInt128_positive hfit2, isInt128_positive hfit1⟩

/-! ## The views -/

/-- **The loop of `_supplyAt`.** From a point on the curve it computes the power at `t`, if its rounds reach `t` or the
end of every lock. -/
theorem supplyWeeks_eq {J : Finset ℕ} {rate : ℕ → ℤ} {sc : ℕ → ℤ} {t : ℕ} (ht : t < 2 ^ 127) (rounds ti : ℕ) (p : Point)
    (hsched : Scheduled J rate ends sc p.ts) (hp : OnCurve J rate ends p) (hti : ti % WEEK = 0) (hle : ti ≤ p.ts)
    (hlt : p.ts < ti + WEEK) (hpt : p.ts ≤ t) (hfits : IsInt128 p.bias ∧ IsInt128 p.slope)
    (hreach : t ≤ ti + rounds * WEEK ∨ ∀ i ∈ J, ends i ≤ ti + rounds * WEEK) :
    supplyWeeks sc t rounds ti p = .ok (weight J rate ends t) := by
  induction rounds generalizing ti p with
  | zero =>
    rw [supplyWeeks, hp.bias]
    rcases hreach with hreach | hreach
    · rw [show p.ts = t by omega]
    · rw [weight_eq_zero fun i hi => (hreach i hi).trans (by omega),
        weight_eq_zero fun i hi => (hreach i hi).trans (by omega)]
  | succ rounds ih =>
    have hover : ti + WEEK < 2 ^ 256 := by
      have : WEEK = 604800 := rfl
      omega
    rw [supplyWeeks, uadd, fits, if_pos hover, ok_bind]
    dsimp only
    generalize hti' : (if t < ti + WEEK then t else ti + WEEK) = ti'
    have hti'_le : ti' ≤ ti + WEEK ∧ p.ts ≤ ti' ∧ ti' ≤ t := by
      rw [← hti']
      split_ifs <;> omega
    have hends : ∀ i ∈ J, ends i ≤ p.ts ∨ ti' ≤ ends i := by
      intro i hi
      have := ends_apart hsched hti hle i hi
      omega
    have hnonneg : ∀ T, p.ts ≤ T → ∀ i ∈ J, T < ends i → 0 ≤ rate i := fun T hT i hi hl => hsched.nonneg i hi (by omega)
    have hdt : asInt128 ((ti' - p.ts : ℕ) : ℤ) = ((ti' - p.ts : ℕ) : ℤ) := by
      refine asInt128_week ?_
      have : WEEK ≤ MAX_TIME := by decide
      omega
    have hstep : p.bias - p.slope * ((ti' - p.ts : ℕ) : ℤ) = weight J rate ends ti' := by
      rw [hp.bias, hp.slope, weight_step hti'_le.2.1 hends]
    have hslope0 : 0 ≤ p.slope := hp.slope ▸ liveRate_nonneg (hnonneg p.ts le_rfl)
    have hweight0 : 0 ≤ weight J rate ends ti' := weight_nonneg (hnonneg ti' hti'_le.2.1)
    have hdecay : IsInt128 (p.slope * ((ti' - p.ts : ℕ) : ℤ)) :=
      isInt128_of_le (mul_nonneg hslope0 (by positivity)) (by linarith) hfits.1
    have hbias : IsInt128 (weight J rate ends ti') :=
      isInt128_of_le hweight0 (by nlinarith [mul_nonneg hslope0 (by positivity : (0 : ℤ) ≤ ((ti' - p.ts : ℕ) : ℤ))]) hfits.1
    rw [usub, if_pos hti'_le.2.1, ok_bind, hdt, i128, if_pos hdecay, ok_bind, hstep, i128, if_pos hbias, ok_bind]
    by_cases hstop : ti' = t
    · rw [if_pos hstop, hstop]
      rfl
    · have hnext : ti' = ti + WEEK ∧ ¬ t < ti + WEEK := by
        split_ifs at hti' with hcase <;> omega
      have hrate : p.slope + sc (ti + WEEK) = liveRate J rate ends ti' := by
        rw [hp.slope, hsched.changes _ (by omega), ← hnext.1, liveRate_step (by omega) hends]
        ring
      have hending : 0 ≤ endingRate J rate ends ti' := endingRate_nonneg (hnonneg p.ts le_rfl) (by omega)
      have hlive : IsInt128 (liveRate J rate ends ti') := by
        refine isInt128_of_le (liveRate_nonneg (hnonneg ti' hti'_le.2.1)) ?_ hfits.2
        rw [hp.slope, liveRate_step (by omega) hends]
        linarith
      rw [if_neg hstop, if_neg hnext.2, hrate, i128, if_pos hlive, ok_bind]
      refine ih ti' _ (hsched.mono hti'_le.2.1) ⟨rfl, rfl⟩ ?_ le_rfl ?_ hti'_le.2.2 ⟨hbias, hlive⟩ ?_
      · rw [hnext.1]
        simp [hti]
      · show ti' < ti' + WEEK
        have := week_pos
        omega
      · rw [hnext.1]
        rcases hreach with hreach | hreach
        · left
          linarith
        · right
          intro i hi
          have := hreach i hi
          linarith

/-- the total supply at any time from the last checkpoint on is the total power of the locks -/
theorem totalSupplyAtT_eq (h : SupplyInv s derived ends) (hw : NoWrap s) {t : ℕ} (hle : (lastPoint s).ts ≤ t)
    (ht : t < 2 ^ 127) : totalSupplyAtT s t = .ok (weight (ids s) (rateOf derived) ends t).toNat := by
  have hdiv := Nat.lt_div_mul_add (a := (lastPoint s).ts) week_pos
  have hreach : ∀ i ∈ ids s, ends i ≤ (lastPoint s).ts / WEEK * WEEK + 255 * WEEK := by
    intro i _
    have hend := h.ends_le i
    have hmax : MAX_TIME = 16 * WEEK := rfl
    omega
  have hloop := supplyWeeks_eq ht 255 ((lastPoint s).ts / WEEK * WEEK) (lastPoint s) (h.scheduled hw) h.onCurve
    (Nat.mul_mod_left _ _) (Nat.div_mul_le_self _ _) (by omega) hle h.fits (.inr hreach)
  have hnonneg : 0 ≤ weight (ids s) (rateOf derived) ends t :=
    weight_nonneg fun i hi hlive => (h.scheduled hw).nonneg i hi (by omega)
  rw [totalSupplyAtT, supplyAt, show s.pointHistory s.epoch = lastPoint s from rfl, hloop, ok_bind,
    positiveInt128_of_nonneg hnonneg]
  rfl

/-- the extrapolated line of a lock is its slope times the time left -/
theorem LineAt.extrapolate {u : Point} {rate : ℤ} {e t : ℕ} (hline : LineAt u rate e) (hslope : 0 ≤ u.slope)
    (hle : u.ts ≤ t) : positiveInt128 (u.bias - u.slope * ((t - u.ts : ℕ) : ℤ)) = rate * ((e - t : ℕ) : ℤ) := by
  have hs := hline.slope
  rw [hline.bias]
  by_cases hlive : u.ts < e
  · rw [if_pos hlive] at hs
    rw [hs] at hslope ⊢
    rcases le_total t e with hte | hte
    · have heq : rate * ((e - u.ts : ℕ) : ℤ) - rate * ((t - u.ts : ℕ) : ℤ) = rate * ((e - t : ℕ) : ℤ) := by
        rw [← mul_sub]
        congr 1
        omega
      rw [heq]
      exact positiveInt128_of_nonneg (by positivity)
    · rw [← mul_sub, Nat.sub_eq_zero_of_le hte]
      simp only [Nat.cast_zero, mul_zero]
      refine max_eq_right (mul_nonpos_of_nonneg_of_nonpos hslope ?_)
      omega
  · rw [if_neg hlive] at hs
    rw [hs, Nat.sub_eq_zero_of_le (not_lt.1 hlive), Nat.sub_eq_zero_of_le ((not_lt.1 hlive).trans hle)]
    simp [positiveInt128]

theorem LineAt.bias_nonneg {u : Point} {rate : ℤ} {e : ℕ} (hline : LineAt u rate e) (hslope : 0 ≤ u.slope) :
    0 ≤ u.bias := by
  rw [hline.bias]
  by_cases hlive : u.ts < e
  · have hs := hline.slope
    rw [if_pos hlive] at hs
    rw [hs] at hslope
    positivity
  · simp [Nat.sub_eq_zero_of_le (not_lt.1 hlive)]

theorem asInt256_of_lt {n : ℕ} (h : n < 2 ^ 127) : asInt256 n = n := by
  refine Int.bmod_eq_of_le ?_ ?_
  · norm_num
  · norm_num
    omega

/-- the voting power of an NFT at any time from the last checkpoint on is its lock's, as long as its decay fits -/
theorem balanceOfNFTAt_eq (h : SupplyInv s derived ends) (hw : NoWrap s) {t : ℕ} (hle : (lastPoint s).ts ≤ t)
    (ht : t < 2 ^ 127) (i : ℕ) (hfit : (userPoint s i).slope * t < 2 ^ 127) :
    balanceOfNFTAt s i t = .ok (rateOf derived i * ((ends i - t : ℕ) : ℤ)).toNat := by
  unfold balanceOfNFTAt
  rcases h.users i with ⟨h0, hd⟩ | ⟨hpos, hts, hline⟩
  · rw [if_pos h0, rateOf, hd, slopeOf_zero]
    simp
  · have hslope : 0 ≤ (userPoint s i).slope := hw i _ le_rfl
    have huts : (userPoint s i).ts ≤ t := hts.trans hle
    rw [if_neg (by omega)]
    dsimp only
    rw [show s.userPointHistory i (s.userPointEpoch i) = userPoint s i from rfl, asInt256_of_lt ht,
      asInt256_of_lt (lt_of_le_of_lt huts ht)]
    have hdt : ((t : ℤ) - ((userPoint s i).ts : ℤ)) = ((t - (userPoint s i).ts : ℕ) : ℤ) := by omega
    have hdt256 : -2 ^ 255 ≤ ((t - (userPoint s i).ts : ℕ) : ℤ) ∧ ((t - (userPoint s i).ts : ℕ) : ℤ) < 2 ^ 255 := by
      constructor
      · have : (0 : ℤ) ≤ ((t - (userPoint s i).ts : ℕ) : ℤ) := by positivity
        norm_num
      · norm_num
        omega
    have hdt128 : IsInt128 ((t - (userPoint s i).ts : ℕ) : ℤ) := by
      refine ⟨?_, ?_⟩
      · have : (0 : ℤ) ≤ ((t - (userPoint s i).ts : ℕ) : ℤ) := by positivity
        norm_num
      · norm_num
        omega
    have hdecay0 : 0 ≤ (userPoint s i).slope * ((t - (userPoint s i).ts : ℕ) : ℤ) := by positivity
    have hdecay_le : (userPoint s i).slope * ((t - (userPoint s i).ts : ℕ) : ℤ) ≤ (userPoint s i).slope * t :=
      mul_le_mul_of_nonneg_left (by omega) hslope
    have hdecay : IsInt128 ((userPoint s i).slope * ((t - (userPoint s i).ts : ℕ) : ℤ)) :=
      ⟨le_trans (by norm_num) hdecay0, lt_of_le_of_lt hdecay_le hfit⟩
    have hbias0 := hline.bias_nonneg hslope
    have hbias : IsInt128 ((userPoint s i).bias - (userPoint s i).slope * ((t - (userPoint s i).ts : ℕ) : ℤ)) :=
      ⟨by linarith [hdecay.2], lt_of_le_of_lt (by linarith) hline.fits.2⟩
    rw [require, if_pos huts, ok_bind, hdt, i256, if_pos hdt256, ok_bind, asInt128_eq hdt128, i128, if_pos hdecay,
      ok_bind, i128, if_pos hbias, ok_bind, hline.extrapolate hslope huts]
    rfl

end SimContracts.Ve
