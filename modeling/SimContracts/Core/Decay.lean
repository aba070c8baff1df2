/-
Linearly decaying weights. Each item has a rate and an end: its weight at time `T` is the rate times the time left, and
0 from the end on. The total is piecewise linear: between two consecutive ends it falls at the rate of the items still
live, and at an end the live rate drops by the rates of the items ending there. Whoever keeps the total, the live rate
and, for each future end, the rate ending there, can carry the total forward without looking at the items.

Results:
  weight_step       the total after a step in which nothing ends before its last moment
  liveRate_step     the live rate at the next end
  liveRate_still    the live rate where nothing ends
-/
import Mathlib.Algebra.BigOperators.Group.Finset.Basic
import Mathlib.Tactic

namespace SimContracts.Decay

variable {ι : Type} (ids : Finset ι) (rate : ι → ℤ) (endOf : ι → ℕ)

/-- total weight at `T`: rate times the time left -/
def weight (T : ℕ) : ℤ := ∑ i ∈ ids, rate i * ((endOf i - T : ℕ) : ℤ)

/-- total rate of the items live at `T` -/
def liveRate (T : ℕ) : ℤ := ∑ i ∈ ids, if T < endOf i then rate i else 0

/-- total rate of the items that end at `T` -/
def endingRate (T : ℕ) : ℤ := ∑ i ∈ ids, if endOf i = T then rate i else 0

section Sign

variable {ids rate endOf} {T : ℕ} (hrate : ∀ i ∈ ids, T < endOf i → 0 ≤ rate i)
include hrate

theorem weight_nonneg : 0 ≤ weight ids rate endOf T := by
  refine Finset.sum_nonneg fun i hi => ?_
  by_cases hlive : T < endOf i
  · exact mul_nonneg (hrate i hi hlive) (by positivity)
  · simp [Nat.sub_eq_zero_of_le (not_lt.1 hlive)]

theorem liveRate_nonneg : 0 ≤ liveRate ids rate endOf T := by
  refine Finset.sum_nonneg fun i hi => ?_
  split_ifs with hlive
  · exact hrate i hi hlive
  · exact le_rfl

theorem endingRate_nonneg {w : ℕ} (hw : T < w) : 0 ≤ endingRate ids rate endOf w := by
  refine Finset.sum_nonneg fun i hi => ?_
  split_ifs with hend
  · exact hrate i hi (by omega)
  · exact le_rfl

end Sign

/-- once everything has ended, nothing is left -/
theorem weight_eq_zero {ids : Finset ι} {rate : ι → ℤ} {endOf : ι → ℕ} {T : ℕ} (h : ∀ i ∈ ids, endOf i ≤ T) :
    weight ids rate endOf T = 0 := by
  refine Finset.sum_eq_zero fun i hi => ?_
  rw [Nat.sub_eq_zero_of_le (h i hi)]
  simp

/-! ## Moving forward in time -/

variable {ids rate endOf} {T T' : ℕ}

/-- the total falls at the live rate as long as nothing ends strictly in between -/
theorem weight_step (hle : T ≤ T') (hends : ∀ i ∈ ids, endOf i ≤ T ∨ T' ≤ endOf i) :
    weight ids rate endOf T' = weight ids rate endOf T - liveRate ids rate endOf T * ((T' - T : ℕ) : ℤ) := by
  unfold weight liveRate
  rw [Finset.sum_mul, ← Finset.sum_sub_distrib]
  refine Finset.sum_congr rfl fun i hi => ?_
  rcases hends i hi with hpast | hfuture
  · rw [if_neg (by omega), Nat.sub_eq_zero_of_le hpast, Nat.sub_eq_zero_of_le (hpast.trans hle)]
    ring
  · by_cases hlive : T < endOf i
    · rw [if_pos hlive, show ((endOf i - T' : ℕ) : ℤ) = ((endOf i - T : ℕ) : ℤ) - ((T' - T : ℕ) : ℤ) by omega]
      ring
    · have h1 : endOf i - T' = 0 := by omega
      have h2 : endOf i - T = 0 := by omega
      rw [if_neg hlive, h1, h2]
      ring

/-- at the next end the live rate drops by the rate ending there -/
theorem liveRate_step (hlt : T < T') (hends : ∀ i ∈ ids, endOf i ≤ T ∨ T' ≤ endOf i) :
    liveRate ids rate endOf T' = liveRate ids rate endOf T - endingRate ids rate endOf T' := by
  unfold liveRate endingRate
  rw [← Finset.sum_sub_distrib]
  refine Finset.sum_congr rfl fun i hi => ?_
  rcases hends i hi with hpast | hfuture
  · rw [if_neg (by omega), if_neg (by omega), if_neg (by omega)]
    ring
  · rcases hfuture.lt_or_eq with hlater | heq
    · rw [if_pos hlater, if_pos (by omega), if_neg (by omega)]
      ring
    · rw [if_neg (by omega), if_pos (by omega), if_pos heq.symm]
      ring

/-- where nothing ends, the live rate stays -/
theorem liveRate_still (hle : T ≤ T') (hends : ∀ i ∈ ids, endOf i ≤ T ∨ T' < endOf i) :
    liveRate ids rate endOf T' = liveRate ids rate endOf T := by
  refine Finset.sum_congr rfl fun i hi => ?_
  rcases hends i hi with hpast | hfuture
  · rw [if_neg (by omega), if_neg (by omega)]
  · rw [if_pos hfuture, if_pos (by omega)]

/-! ## The end of an item without a rate does not matter -/

section Irrelevant

variable {endOf' : ι → ℕ} (h : ∀ i ∈ ids, rate i = 0 ∨ endOf' i = endOf i)
include h

theorem weight_congr (T : ℕ) : weight ids rate endOf' T = weight ids rate endOf T := by
  refine Finset.sum_congr rfl fun i hi => ?_
  rcases h i hi with h0 | heq
  · rw [h0, zero_mul, zero_mul]
  · rw [heq]

theorem liveRate_congr (T : ℕ) : liveRate ids rate endOf' T = liveRate ids rate endOf T := by
  refine Finset.sum_congr rfl fun i hi => ?_
  rcases h i hi with h0 | heq
  · rw [h0, ite_self, ite_self]
  · rw [heq]

theorem endingRate_congr (T : ℕ) : endingRate ids rate endOf' T = endingRate ids rate endOf T := by
  refine Finset.sum_congr rfl fun i hi => ?_
  rcases h i hi with h0 | heq
  · rw [h0, ite_self, ite_self]
  · rw [heq]

end Irrelevant

/-! ## Changing one item -/

section Change

variable [DecidableEq ι] {rate' : ι → ℤ} {endOf' : ι → ℕ} {i : ι}

/-- two sums over the items that differ at one item only -/
theorem sum_change {f g : ι → ℤ} (hi : i ∈ ids) (h : ∀ j ∈ ids, j ≠ i → g j = f j) :
    ∑ j ∈ ids, g j = ∑ j ∈ ids, f j + (g i - f i) := by
  have hrest : ∑ j ∈ ids.erase i, g j = ∑ j ∈ ids.erase i, f j :=
    Finset.sum_congr rfl fun j hj => h j (Finset.mem_of_mem_erase hj) (Finset.ne_of_mem_erase hj)
  rw [← Finset.add_sum_erase _ g hi, ← Finset.add_sum_erase _ f hi, hrest]
  ring

variable (hi : i ∈ ids) (hrate : ∀ j, j ≠ i → rate' j = rate j) (hend : ∀ j, j ≠ i → endOf' j = endOf j)
include hi hrate hend

theorem weight_change (T : ℕ) : weight ids rate' endOf' T =
    weight ids rate endOf T + (rate' i * ((endOf' i - T : ℕ) : ℤ) - rate i * ((endOf i - T : ℕ) : ℤ)) :=
  sum_change hi fun j _ hj => by rw [hrate j hj, hend j hj]

theorem liveRate_change (T : ℕ) : liveRate ids rate' endOf' T =
    liveRate ids rate endOf T + ((if T < endOf' i then rate' i else 0) - if T < endOf i then rate i else 0) :=
  sum_change hi fun j _ hj => by rw [hrate j hj, hend j hj]

theorem endingRate_change (T : ℕ) : endingRate ids rate' endOf' T =
    endingRate ids rate endOf T + ((if endOf' i = T then rate' i else 0) - if endOf i = T then rate i else 0) :=
  sum_change hi fun j _ hj => by rw [hrate j hj, hend j hj]

end Change

end SimContracts.Decay
