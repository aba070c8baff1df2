/-
What one token checkpoint of the distributor adds to the weeks. New tokens are split over the weeks since the last
checkpoint in proportion to the time in each; `adjustToDistribute` answers with the whole amount for an empty interval.
A checkpoint made exactly at a week boundary ends with such an interval: the boundary belongs to the week that starts
there, and this week gets all the tokens a second time.

Results:
  checkpointToken_conserves_iff   the weeks gain between D - 20 and D exactly if the block is not a boundary after the
                                  last checkpoint, or D is too small for any week to get a token
  checkpointToken_doubles         a checkpoint at a boundary: 1000 tokens arrive, 2000 are promised
-/
import SimContracts.VeDistributor.Model

namespace SimContracts.VeDistributor

open Solidity Ve

/-! ## The tokens of all weeks -/

/-- all tokens promised to weeks -/
def totalTokens (tokensPerWeek : ℕ → ℕ) : ℕ := ∑ week ∈ Finset.range WEEKS_SIZE, tokensPerWeek week

theorem addTokens_total {m m' : ℕ → ℕ} {week amount : ℕ} (h : addTokens m week amount = .ok m') :
    totalTokens m' = totalTokens m + amount := by
  simp only [addTokens, inBounds_bind, uadd_bind, pure_ok] at h
  obtain ⟨hweek, -, rfl⟩ := h
  have hmem : week ∈ Finset.range WEEKS_SIZE := Finset.mem_range.2 hweek
  unfold totalTokens
  rw [Finset.sum_update_of_mem hmem, ← Finset.add_sum_erase _ m hmem, Finset.sdiff_singleton_eq_erase]
  omega

/-! ## The loop in plain arithmetic -/

/-- `adjustToDistribute` without the overflow check -/
def portion (D t0 t1 since : ℕ) : ℕ := if t0 ≤ t1 ∨ since = 0 then D else D * (t0 - t1) / since

/-- what the loop adds to all weeks together -/
def spreadSum (now D since : ℕ) : ℕ → ℕ → ℕ → ℕ
  | 0, _, _ => 0
  | rounds + 1, t, thisWeek =>
    if now < thisWeek + WEEK then portion D now t since
    else portion D (thisWeek + WEEK) t since + spreadSum now D since rounds (thisWeek + WEEK) (thisWeek + WEEK)

theorem adjustToDistribute_ok {D t0 t1 since v : ℕ} (h : adjustToDistribute D t0 t1 since = .ok v) :
    v = portion D t0 t1 since := by
  unfold adjustToDistribute at h
  unfold portion
  split_ifs at h with h0
  · cases h
    rw [if_pos (by omega)]
  · simp only [umul_bind, udiv_ok] at h
    rw [if_neg (by omega)]
    exact h.2.2.symm

theorem spreadTokens_total {now D since rounds t week : ℕ} {m m' : ℕ → ℕ}
    (h : spreadTokens now D since rounds t week m = .ok m') :
    totalTokens m' = totalTokens m + spreadSum now D since rounds t week := by
  induction rounds generalizing t week m with
  | zero =>
    cases h
    rw [spreadSum, Nat.add_zero]
  | succ rounds ih =>
    rw [spreadTokens, uadd_bind] at h
    obtain ⟨-, h⟩ := h
    rw [spreadSum]
    split_ifs at h ⊢
    · obtain ⟨amount, ha, h⟩ := bind_ok.1 h
      rw [addTokens_total h, adjustToDistribute_ok ha]
    · obtain ⟨amount, ha, h⟩ := bind_ok.1 h
      obtain ⟨m₁, hm, h⟩ := bind_ok.1 h
      rw [ih h, addTokens_total hm, adjustToDistribute_ok ha, Nat.add_assoc]

/-! ## What the pieces add up to -/

section Pieces

variable {now D since : ℕ}

theorem portion_of_lt {t0 t1 : ℕ} (hsince : 0 < since) (h : t1 < t0) :
    portion D t0 t1 since = D * (t0 - t1) / since := if_neg (by omega)

theorem portion_of_le {t0 t1 : ℕ} (h : t0 ≤ t1) : portion D t0 t1 since = D := if_pos (.inl h)

/-- a piece loses less than one token to the floor -/
theorem lt_portion {t0 t1 : ℕ} (hsince : 0 < since) (h : t1 < t0) :
    D * (t0 - t1) < (portion D t0 t1 since + 1) * since := by
  rw [portion_of_lt hsince h, Nat.mul_comm _ since]
  exact Nat.lt_mul_div_succ _ hsince

theorem portion_le {t0 t1 : ℕ} (hsince : 0 < since) (h : t1 < t0) :
    portion D t0 t1 since * since ≤ D * (t0 - t1) := by
  rw [portion_of_lt hsince h]
  exact Nat.div_mul_le_self _ _

/-- at most one token is lost in each round -/
theorem le_spreadSum (hsince : 0 < since) (rounds t week : ℕ) (h1 : week ≤ t) (h2 : t < week + WEEK) (h3 : t ≤ now)
    (h4 : now < week + rounds * WEEK) : D * (now - t) ≤ (spreadSum now D since rounds t week + rounds) * since := by
  induction rounds generalizing t week with
  | zero => omega
  | succ rounds ih =>
    rw [spreadSum]
    split_ifs with hlast
    · rcases h3.lt_or_eq with hlt | rfl
      · have hp := lt_portion (D := D) hsince hlt
        have hmono : (portion D now t since + 1) * since ≤ (portion D now t since + (rounds + 1)) * since :=
          Nat.mul_le_mul_right _ (by omega)
        omega
      · simp
    · have hp := lt_portion (D := D) hsince h2
      have hrest := ih (week + WEEK) (week + WEEK) le_rfl (by simp [WEEK]) (by omega) (by linarith)
      have hlen : now - t = (week + WEEK - t) + (now - (week + WEEK)) := by omega
      rw [hlen, Nat.mul_add]
      nlinarith

/-- away from a boundary the pieces are at most the whole -/
theorem spreadSum_le (hsince : 0 < since) (hnow : now % WEEK ≠ 0) (rounds t week : ℕ) (hweek : week % WEEK = 0)
    (h2 : t < week + WEEK) (h3 : t < now) : spreadSum now D since rounds t week * since ≤ D * (now - t) := by
  induction rounds generalizing t week with
  | zero => simp [spreadSum]
  | succ rounds ih =>
    rw [spreadSum]
    split_ifs with hlast
    · exact portion_le hsince h3
    · have hnext : (week + WEEK) % WEEK = 0 := by simp [hweek]
      have hlt : week + WEEK < now := lt_of_le_of_ne (by omega) fun e => hnow (e ▸ hnext)
      have hp := portion_le (D := D) hsince h2
      have hrest := ih (week + WEEK) (week + WEEK) hnext (by simp [WEEK]) hlt
      have hlen : now - t = (week + WEEK - t) + (now - (week + WEEK)) := by omega
      rw [hlen, Nat.mul_add]
      nlinarith

/-- at a boundary the loop ends with the whole amount for the empty week that starts there -/
theorem le_spreadSum_boundary (hnow : now % WEEK = 0) (rounds t week : ℕ) (hweek : week % WEEK = 0) (h1 : week ≤ t)
    (h2 : t < week + WEEK) (h3 : t ≤ now) (h4 : now < week + rounds * WEEK) :
    D ≤ spreadSum now D since rounds t week := by
  induction rounds generalizing t week with
  | zero => omega
  | succ rounds ih =>
    rw [spreadSum]
    split_ifs with hlast
    · have heq : now = week := by
        simp only [WEEK] at *
        omega
      exact (portion_of_le (by omega)).ge
    · have hrest := ih (week + WEEK) (week + WEEK) (by simp [hweek]) le_rfl (by simp [WEEK]) (by omega) (by linarith)
      omega

/-- at a boundary, with a whole week before it: that week's piece comes on top -/
theorem week_le_spreadSum_boundary (hsince : 0 < since) (hnow : now % WEEK = 0) (rounds t week : ℕ)
    (hweek : week % WEEK = 0) (h1 : week ≤ t) (h2 : t < week + WEEK) (h3 : t + WEEK ≤ now)
    (h4 : now < week + rounds * WEEK) : D * WEEK / since + D ≤ spreadSum now D since rounds t week := by
  induction rounds generalizing t week with
  | zero => omega
  | succ rounds ih =>
    have hnext : (week + WEEK) % WEEK = 0 := by simp [hweek]
    have hpos : 0 < WEEK := by decide
    rw [spreadSum, if_neg (by omega)]
    by_cases hlast : week + WEEK = now
    · have hp : portion D (week + WEEK) t since = D * WEEK / since := by
        rw [portion_of_lt hsince h2, show week + WEEK - t = WEEK by omega]
      have hrest : D ≤ spreadSum now D since rounds (week + WEEK) (week + WEEK) :=
        le_spreadSum_boundary hnow rounds (week + WEEK) (week + WEEK) hnext le_rfl (by omega) (by omega) (by linarith)
      omega
    · have hgap : week + WEEK + WEEK ≤ now := by
        simp only [WEEK] at *
        omega
      have hrest := ih (week + WEEK) (week + WEEK) hnext le_rfl (by omega) hgap (by linarith)
      omega

/-- at a boundary, with too few tokens for any piece: the whole amount once -/
theorem spreadSum_boundary_small (hsince : 0 < since) (hnow : now % WEEK = 0) (hsmall : D * min WEEK since < since)
    (rounds t week : ℕ) (hweek : week % WEEK = 0) (h1 : week ≤ t) (h2 : t < week + WEEK) (h3 : t ≤ now)
    (hlen : now - t ≤ since) (h4 : now < week + rounds * WEEK) : spreadSum now D since rounds t week = D := by
  induction rounds generalizing t week with
  | zero => omega
  | succ rounds ih =>
    rw [spreadSum]
    split_ifs with hlast
    · have heq : now = week := by
        simp only [WEEK] at *
        omega
      exact portion_of_le (by omega)
    · have hp : portion D (week + WEEK) t since = 0 := by
        rw [portion_of_lt hsince h2, Nat.div_eq_zero_iff]
        have hle : D * (week + WEEK - t) ≤ D * min WEEK since := Nat.mul_le_mul_left _ (by omega)
        omega
      rw [hp, Nat.zero_add]
      exact ih (week + WEEK) (week + WEEK) (by simp [hweek]) le_rfl (by simp [WEEK]) (by omega) (by omega) (by linarith)

end Pieces

/-! ## One checkpoint -/

/-- what one checkpoint adds to all weeks together -/
theorem checkpointToken_total {d d' : Dist} {now tokenBalance : ℕ} (h : checkpointToken d now tokenBalance = .ok d') :
    d.lastTokenTime ≤ now ∧ totalTokens d'.tokensPerWeek = totalTokens d.tokensPerWeek +
      spreadSum now (tokenBalance - d.tokenLastBalance) (now - d.lastTokenTime) 20 d.lastTokenTime
        (d.lastTokenTime / WEEK * WEEK) := by
  simp only [checkpointToken, usub_bind] at h
  obtain ⟨-, hle, h⟩ := h
  obtain ⟨m, hm, h⟩ := bind_ok.1 h
  cases h
  exact ⟨hle, spreadTokens_total hm⟩

/-- the pieces add up to the whole, less at most one token a round, except at a boundary -/
theorem spreadSum_conserves_iff {now last D : ℕ} (hle : last ≤ now) (hlt : now < last + 19 * WEEK) :
    (spreadSum now D (now - last) 20 last (last / WEEK * WEEK) ≤ D ∧
        D ≤ spreadSum now D (now - last) 20 last (last / WEEK * WEEK) + 20) ↔
      now % WEEK ≠ 0 ∨ now = last ∨ D * min WEEK (now - last) < now - last := by
  have hpos : 0 < WEEK := by decide
  have hweek : last / WEEK * WEEK % WEEK = 0 := Nat.mul_mod_left _ _
  have h1 : last / WEEK * WEEK ≤ last := Nat.div_mul_le_self _ _
  have h2 : last < last / WEEK * WEEK + WEEK := by
    have := Nat.lt_div_mul_add (a := last) hpos
    omega
  generalize last / WEEK * WEEK = week at *
  rcases hle.lt_or_eq with hgt | rfl
  swap
  · -- no time has passed: the week gets everything at once
    have hsum : spreadSum last D (last - last) 20 last week = D := by
      rw [spreadSum, if_pos h2, portion_of_le le_rfl]
    rw [hsum]
    exact iff_of_true ⟨le_rfl, by omega⟩ (.inr (.inl rfl))
  have hsince : 0 < now - last := by omega
  have h4 : now < week + 20 * WEEK := by omega
  have hlower := le_spreadSum (D := D) hsince 20 last week h1 h2 hle h4
  have hlower' : D ≤ spreadSum now D (now - last) 20 last week + 20 := Nat.le_of_mul_le_mul_right hlower hsince
  by_cases hnow : now % WEEK = 0
  swap
  · have hupper := spreadSum_le (D := D) hsince hnow 20 last week hweek h2 hgt
    exact iff_of_true ⟨Nat.le_of_mul_le_mul_right hupper hsince, hlower'⟩ (.inl hnow)
  by_cases hsmall : D * min WEEK (now - last) < now - last
  · have hsum := spreadSum_boundary_small hsince hnow hsmall 20 last week hweek h1 h2 hle le_rfl h4
    rw [hsum]
    exact iff_of_true ⟨le_rfl, by omega⟩ (.inr (.inr hsmall))
  · refine iff_of_false ?_ (by omega)
    rintro ⟨hupper, -⟩
    rcases le_or_gt WEEK (now - last) with hlong | hshort
    · -- a whole week before the boundary gets a token
      have hsum := week_le_spreadSum_boundary (D := D) hsince hnow 20 last week hweek h1 h2 (by omega) h4
      rw [min_eq_left hlong, not_lt] at hsmall
      have hone : 1 ≤ D * WEEK / (now - last) := (Nat.le_div_iff_mul_le hsince).2 (by omega)
      omega
    · -- the boundary is the end of the week of the last checkpoint: both pieces are the whole
      have hnext : week + WEEK = now := by
        simp only [WEEK] at *
        omega
      have hD : D ≠ 0 := by
        rintro rfl
        omega
      have hfirst : portion D (week + WEEK) last (now - last) = D := by
        rw [portion_of_lt hsince h2, hnext, Nat.mul_div_cancel _ hsince]
      have hsecond : portion D now (week + WEEK) (now - last) = D := portion_of_le hnext.ge
      rw [spreadSum, if_neg (by omega), hfirst, spreadSum, if_pos (by omega), hsecond] at hupper
      omega

/-- **Reward weeks.** A checkpoint less than 19 weeks after the last one adds to all weeks together at most the `D` new
tokens and at least `D - 20`, exactly if it is not made at a week boundary, or no time has passed, or `D` is too small
to give any piece a token. -/
theorem checkpointToken_conserves_iff (d d' : Dist) (now tokenBalance : ℕ)
    (hlt : now < d.lastTokenTime + 19 * WEEK) (h : checkpointToken d now tokenBalance = .ok d') :
    (totalTokens d'.tokensPerWeek ≤ totalTokens d.tokensPerWeek + (tokenBalance - d.tokenLastBalance) ∧
        totalTokens d.tokensPerWeek + (tokenBalance - d.tokenLastBalance) ≤ totalTokens d'.tokensPerWeek + 20) ↔
      now % WEEK ≠ 0 ∨ now = d.lastTokenTime ∨
        (tokenBalance - d.tokenLastBalance) * min WEEK (now - d.lastTokenTime) < now - d.lastTokenTime := by
  obtain ⟨hle, htotal⟩ := checkpointToken_total h
  rw [htotal, ← spreadSum_conserves_iff hle hlt]
  omega

/-- a distributor that has just been set up, with its last checkpoint at week 100 -/
def fresh : Dist := init (100 * WEEK)

/-- 1000 tokens, one week and one day later -/
theorem checkpointToken_conserves_midweek :
    ∃ d', checkpointToken fresh (101 * WEEK + 86400) 1000 = .ok d' ∧
      totalTokens d'.tokensPerWeek ≤ totalTokens fresh.tokensPerWeek + 1000 ∧
      totalTokens fresh.tokensPerWeek + 1000 ≤ totalTokens d'.tokensPerWeek + 20 := by
  have hok : (checkpointToken fresh (101 * WEEK + 86400) 1000).isOk = true := by decide +kernel
  cases h : checkpointToken fresh (101 * WEEK + 86400) 1000 with
  | error e => simp [h, Except.isOk, Except.toBool] at hok
  | ok d' =>
    have hiff := checkpointToken_conserves_iff fresh d' (101 * WEEK + 86400) 1000 (by decide) h
    have hD : 1000 - fresh.tokenLastBalance = 1000 := rfl
    rw [hD] at hiff
    exact ⟨d', rfl, hiff.2 (.inl (by decide))⟩

/-- 1000 tokens, exactly one week later: week 100 gets 1000, and week 101, which just starts, gets 1000 too -/
theorem checkpointToken_doubles :
    ∃ d', checkpointToken fresh (101 * WEEK) 1000 = .ok d' ∧
      totalTokens d'.tokensPerWeek = totalTokens fresh.tokensPerWeek + 2000 := by
  have hok : (checkpointToken fresh (101 * WEEK) 1000).isOk = true := by decide +kernel
  cases h : checkpointToken fresh (101 * WEEK) 1000 with
  | error e => simp [h, Except.isOk, Except.toBool] at hok
  | ok d' =>
    have hsum : spreadSum (101 * WEEK) (1000 - fresh.tokenLastBalance) (101 * WEEK - fresh.lastTokenTime) 20
        fresh.lastTokenTime (fresh.lastTokenTime / WEEK * WEEK) = 2000 := by decide +kernel
    exact ⟨d', rfl, hsum ▸ (checkpointToken_total h).2⟩

end SimContracts.VeDistributor
