/-
The accuracy of `_decPow`. Every multiplication rounds to the nearest, and the bits of the exponent decide which
multiplications there are. The error of a product is at most half a unit plus the errors of its factors, so an
approximation of the `i`-th power within `(i - 1) / 2` units and one of the `j`-th within `(j - 1) / 2` give one of the
`(i + j)`-th within `(i + j - 1) / 2`, whatever the order of the multiplications.

Rounding does not spoil the order either: multiplying by a fraction does not make a number larger, also when rounded.

Results:
  Near.mul         the product of two approximations
  power_falls      the power falls with the exponent
  decPow_accurate  `_decPow` of a fraction does not overflow, is a fraction, within `(n - 1) / 2` units of the exact
                   power, and falls with the exponent
-/
import SimContracts.Base

namespace SimContracts

open Solidity

/-! ## One multiplication -/

theorem roundedMul_comm (x y : ℕ) : roundedMul x y = roundedMul y x := by
  rw [roundedMul, roundedMul, Nat.mul_comm]

/-- multiplying by one does not round -/
theorem roundedMul_one (x : ℕ) : roundedMul x DECIMAL_PRECISION = x := by
  unfold roundedMul DECIMAL_PRECISION
  omega

/-- a product is rounded by at most half a unit -/
theorem roundedMul_near (x y : ℕ) : |(roundedMul x y : ℚ) - x * y / 10 ^ 18| ≤ 1 / 2 := by
  have hle : roundedMul x y * 10 ^ 18 ≤ x * y + 10 ^ 18 / 2 := Nat.div_mul_le_self _ _
  have hlt : x * y + 10 ^ 18 / 2 < (roundedMul x y + 1) * 10 ^ 18 := by
    rw [Nat.add_one_mul]
    exact Nat.lt_div_mul_add (by decide)
  rw [show 10 ^ 18 / 2 = 5 * 10 ^ 17 by norm_num] at hle hlt
  have hle' : (roundedMul x y : ℚ) * 10 ^ 18 ≤ x * y + 5 * 10 ^ 17 := by exact_mod_cast hle
  have hlt' : (x * y + 5 * 10 ^ 17 : ℚ) < (roundedMul x y + 1) * 10 ^ 18 := by exact_mod_cast hlt
  have hprod : (x * y : ℚ) = x * y / 10 ^ 18 * 10 ^ 18 := by norm_num
  rw [abs_le]
  constructor <;> linarith

/-! ## Approximations of a power -/

/-- the exact power of a decimal, a decimal itself -/
def exactPower (base n : ℕ) : ℚ := 10 ^ 18 * (base / 10 ^ 18) ^ n

theorem exactPower_add (base i j : ℕ) : exactPower base (i + j) = exactPower base i * exactPower base j / 10 ^ 18 := by
  unfold exactPower
  rw [pow_add]
  ring

theorem exactPower_eq (base : ℕ) {n : ℕ} (hn : 1 ≤ n) : exactPower base n = base ^ n / 10 ^ (18 * (n - 1)) := by
  obtain ⟨m, rfl⟩ : ∃ m, n = m + 1 := ⟨n - 1, by omega⟩
  have hpos : (0 : ℚ) < 10 ^ (18 * m) := by positivity
  rw [exactPower, Nat.add_sub_cancel, div_pow, ← pow_mul, Nat.mul_add_one, pow_add (10 : ℚ)]
  field_simp

variable {base : ℕ}

theorem exactPower_nonneg (base n : ℕ) : 0 ≤ exactPower base n := by
  unfold exactPower
  positivity

theorem exactPower_le (hbase : base ≤ DECIMAL_PRECISION) (n : ℕ) : exactPower base n ≤ 10 ^ 18 := by
  have hcast : (base : ℚ) ≤ 10 ^ 18 := by exact_mod_cast hbase
  have hle : (base / 10 ^ 18 : ℚ) ^ n ≤ 1 := pow_le_one₀ (by positivity) ((div_le_one (by norm_num)).2 hcast)
  unfold exactPower
  linarith

/-- `r` approximates the `n`-th power within `(n - 1) / 2` units; the power of 0 is exact -/
structure Near (base n r : ℕ) : Prop where
  le : r ≤ DECIMAL_PRECISION
  error : |(r : ℚ) - exactPower base n| ≤ ((n - 1 : ℕ) : ℚ) / 2

theorem near_zero : Near base 0 DECIMAL_PRECISION := by
  refine ⟨le_rfl, ?_⟩
  rw [exactPower, pow_zero, mul_one]
  norm_num [DECIMAL_PRECISION]

theorem near_one (hbase : base ≤ DECIMAL_PRECISION) : Near base 1 base := by
  refine ⟨hbase, ?_⟩
  rw [exactPower_eq base le_rfl]
  simp

/-- only one itself approximates the power of 0 -/
theorem Near.eq_one {r : ℕ} (h : Near base 0 r) : r = DECIMAL_PRECISION := by
  have herror := h.error
  have hzero : ((0 - 1 : ℕ) : ℚ) / 2 = 0 := by norm_num
  rw [hzero] at herror
  have heq : (r : ℚ) = exactPower base 0 := sub_eq_zero.1 (abs_nonpos_iff.1 herror)
  rw [exactPower, pow_zero, mul_one] at heq
  exact_mod_cast heq

/-- the product of two numbers at most one differs by no more than the two together -/
theorem abs_mul_sub_le {a b x y : ℚ} (hb : 0 ≤ b) (hb1 : b ≤ 10 ^ 18) (hx : 0 ≤ x) (hx1 : x ≤ 10 ^ 18) :
    |a * b / 10 ^ 18 - x * y / 10 ^ 18| ≤ |a - x| + |b - y| := by
  have hsplit : a * b / 10 ^ 18 - x * y / 10 ^ 18 = (a - x) * (b / 10 ^ 18) + (x / 10 ^ 18) * (b - y) := by ring
  have hb' : |b / 10 ^ 18| ≤ 1 := by
    rw [abs_of_nonneg (by positivity)]
    exact (div_le_one (by norm_num)).2 hb1
  have hx' : |x / 10 ^ 18| ≤ 1 := by
    rw [abs_of_nonneg (by positivity)]
    exact (div_le_one (by norm_num)).2 hx1
  calc |a * b / 10 ^ 18 - x * y / 10 ^ 18| = |(a - x) * (b / 10 ^ 18) + (x / 10 ^ 18) * (b - y)| := by rw [hsplit]
    _ ≤ |a - x| * |b / 10 ^ 18| + |x / 10 ^ 18| * |b - y| := by
      rw [← abs_mul, ← abs_mul]
      exact abs_add_le _ _
    _ ≤ |a - x| + |b - y| :=
      add_le_add (mul_le_of_le_one_right (abs_nonneg _) hb') (mul_le_of_le_one_left (abs_nonneg _) hx')

/-- **One multiplication.** The half unit of its rounding adds to the errors of the factors. -/
theorem Near.mul (hbase : base ≤ DECIMAL_PRECISION) (i j a b : ℕ) (ha : Near base i a) (hb : Near base j b) :
    Near base (i + j) (roundedMul a b) := by
  rcases Nat.eq_zero_or_pos i with rfl | hi
  · -- a power of 0 is one, and multiplying by it is exact
    rwa [ha.eq_one, roundedMul_comm, roundedMul_one, Nat.zero_add]
  rcases Nat.eq_zero_or_pos j with rfl | hj
  · rwa [hb.eq_one, roundedMul_one]
  refine ⟨roundedMul_le ha.le hb.le, ?_⟩
  have hb1 : (b : ℚ) ≤ 10 ^ 18 := by exact_mod_cast hb.le
  have hfactors := abs_mul_sub_le (a := a) (y := exactPower base j) (Nat.cast_nonneg b) hb1 (exactPower_nonneg base i)
    (exactPower_le hbase i)
  have hhalves : (1 / 2 : ℚ) + (((i - 1 : ℕ) : ℚ) / 2 + ((j - 1 : ℕ) : ℚ) / 2) = ((i + j - 1 : ℕ) : ℚ) / 2 := by
    rw [Nat.cast_pred hi, Nat.cast_pred hj, Nat.cast_pred (Nat.add_pos_left hi j), Nat.cast_add]
    ring
  calc |(roundedMul a b : ℚ) - exactPower base (i + j)|
      ≤ |(roundedMul a b : ℚ) - a * b / 10 ^ 18| + |a * b / 10 ^ 18 - exactPower base (i + j)| := abs_sub_le _ _ _
    _ ≤ 1 / 2 + (((i - 1 : ℕ) : ℚ) / 2 + ((j - 1 : ℕ) : ℚ) / 2) := by
      rw [exactPower_add]
      exact add_le_add (roundedMul_near a b) (hfactors.trans (add_le_add ha.error hb.error))
    _ = ((i + j - 1 : ℕ) : ℚ) / 2 := hhalves

/-! ## The whole power -/

theorem power_near (hbase : base ≤ DECIMAL_PRECISION) {n : ℕ} (hn : n < 2 ^ 29) :
    Near base n (Power.power roundedMul 29 base DECIMAL_PRECISION n) := by
  have h := Power.power_graded (Near.mul hbase) (near_one hbase) near_zero hn
  rwa [Nat.one_mul] at h

/-- **The power falls.** Multiplying by one is exact, so it falls at each `2 ^ k`. -/
theorem power_falls (hbase : base ≤ DECIMAL_PRECISION) :
    AntitoneOn (Power.power roundedMul 29 base DECIMAL_PRECISION) (Set.Iio (2 ^ 29)) :=
  Power.power_antitone roundedMul_mono fun k _ => Power.squares_falls roundedMul_mono roundedMul_one hbase k

theorem capped_lt (minutes : ℕ) : min minutes 525600000 < 2 ^ 29 :=
  (min_le_right minutes 525600000).trans_lt (by norm_num)

/-- **How accurate `_decPow` is.** For every decimal up to one and every exponent from 1 to the cap the power is
computed without an overflow, is at most one, and is at most `(n - 1) / 2` units away from the exact power. For any two
exponents, also above the cap, the power with the larger one is no larger. -/
theorem decPow_accurate (base : ℕ) (hbase : base ≤ DECIMAL_PRECISION) :
    (∀ n, 1 ≤ n → n ≤ 525600000 → ∃ r, decPow base n = .ok r ∧ r ≤ 10 ^ 18 ∧
      |(r : ℚ) - base ^ n / 10 ^ (18 * (n - 1))| ≤ (n - 1) / 2) ∧
    (∀ n, 525600000 ≤ n → decPow base n = decPow base 525600000) ∧
    ∀ m n, m ≤ n → ∃ r r', decPow base m = .ok r ∧ decPow base n = .ok r' ∧ r' ≤ r := by
  refine ⟨fun n h1 hcap => ?_, fun n hcap => ?_, fun m n hmn => ?_⟩
  · have hnear := power_near hbase (n := n) (by omega)
    have hok := decPow_ok hbase n
    rw [min_eq_left hcap] at hok
    refine ⟨_, hok, hnear.le, ?_⟩
    rw [← exactPower_eq base h1, ← Nat.cast_pred h1]
    exact hnear.error
  · rw [decPow_ok hbase, decPow_ok hbase, min_eq_right hcap, min_self]
  · exact ⟨_, _, decPow_ok hbase m, decPow_ok hbase n,
      power_falls hbase (capped_lt m) (capped_lt n) (min_le_min_right _ hmn)⟩

/-- a base rate that halves every 12 hours, after a day -/
theorem decPow_accurate_day :
    decPow 999037758833783000 1440 = .ok 249999999999860088 ∧ ∃ r, decPow 999037758833783000 1440 = .ok r ∧ r ≤ 10 ^ 18 ∧
      |(r : ℚ) - ((999037758833783000 : ℕ) : ℚ) ^ 1440 / 10 ^ (18 * (1440 - 1))| ≤ (((1440 : ℕ) : ℚ) - 1) / 2 :=
  ⟨by decide, (decPow_accurate 999037758833783000 (by decide)).1 1440 (by decide) (by decide)⟩

end SimContracts
