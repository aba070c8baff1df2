/-
Square-and-multiply with a multiplication that rounds: `mul` need not be associative, so the result depends on the order
of the multiplications, and different exponents go through different roundings.

The bits of the exponent are multiplied in from the lowest to the highest. So the power of `n` in `[2 ^ k, 2 ^ (k + 1))`
is one multiplication by the `k`-th square away from the power of `n - 2 ^ k`, and a power that falls at every power
of two falls everywhere.

Results:
  power_graded     what the multiplication keeps with the exponents added up
  power_succ       the highest bit is multiplied in last
  power_antitone   the power falls with the exponent if it falls at each `2 ^ k`
  squares_falls    it falls at each `2 ^ k` if `y` is a unit and no less than `x`
-/
import Mathlib.Order.Monotone.Basic
import Mathlib.Tactic

namespace SimContracts.Power

variable {α : Type} (mul : α → α → α)

/-- `x` squared `k` times -/
def squares : ℕ → α → α
  | 0, x => x
  | k + 1, x => squares k (mul x x)

/-- `y` times the power of `x` by the lowest `k` bits of `n` -/
def power : ℕ → α → α → ℕ → α
  | 0, _, y, _ => y
  | k + 1, x, y, n => power k (mul x x) (if n % 2 = 0 then y else mul x y) (n / 2)

variable {mul} {k n : ℕ} {x y : α}

@[simp] theorem power_zero : power mul k x y 0 = y := by
  induction k generalizing x with
  | zero => rfl
  | succ k ih => simpa [power] using ih

/-- what the multiplication keeps holds of the power -/
theorem power_induction {P : α → Prop} (hmul : ∀ a b, P a → P b → P (mul a b)) (hx : P x) (hy : P y) :
    P (power mul k x y n) := by
  induction k generalizing x y n with
  | zero => exact hy
  | succ k ih =>
    rw [power]
    apply ih (hmul x x hx hx)
    split_ifs
    · exact hy
    · exact hmul x y hx hy

/-- what the multiplication keeps, with the exponents added up, holds of the power with its exponent -/
theorem power_graded {P : ℕ → α → Prop} (hmul : ∀ i j a b, P i a → P j b → P (i + j) (mul a b)) {i j : ℕ} (hx : P i x)
    (hy : P j y) (hn : n < 2 ^ k) : P (i * n + j) (power mul k x y n) := by
  induction k generalizing x y n i j with
  | zero =>
    obtain rfl : n = 0 := by simpa using hn
    simpa using hy
  | succ k ih =>
    have hhalf : n / 2 < 2 ^ k := by
      rw [pow_succ'] at hn
      omega
    have hx2 := hmul i i x x hx hx
    rw [power]
    split_ifs with heven
    · have hsum : (i + i) * (n / 2) + j = i * n + j := by
        rw [← two_mul, mul_right_comm, mul_comm (2 * (n / 2)), Nat.mul_div_cancel' (Nat.dvd_of_mod_eq_zero heven)]
      rw [← hsum]
      exact ih hx2 hy hhalf
    · have hsum : (i + i) * (n / 2) + (i + j) = i * n + j := by
        have hn2 : n = 2 * (n / 2) + 1 := by omega
        calc (i + i) * (n / 2) + (i + j) = i * (2 * (n / 2) + 1) + j := by ring
          _ = i * n + j := by rw [← hn2]
      rw [← hsum]
      exact ih hx2 (hmul i j x y hx hy) hhalf

/-- the highest bit is multiplied in last -/
theorem power_succ (hn : n < 2 ^ (k + 1)) :
    power mul (k + 1) x y n =
      if n < 2 ^ k then power mul k x y n else mul (squares mul k x) (power mul k x y (n - 2 ^ k)) := by
  induction k generalizing x y n with
  | zero =>
    obtain rfl | rfl : n = 0 ∨ n = 1 := by omega
    · simp
    · simp [power, squares]
  | succ k ih =>
    have hpow : 2 ^ (k + 1) = 2 * 2 ^ k := pow_succ' 2 k
    have hhalf : n / 2 < 2 ^ (k + 1) := by
      rw [pow_succ'] at hn
      omega
    rw [power, ih hhalf]
    by_cases hlt : n < 2 ^ (k + 1)
    · rw [if_pos hlt, if_pos (by omega)]
      rfl
    · have hdiv : (n - 2 ^ (k + 1)) / 2 = n / 2 - 2 ^ k := by omega
      have hmod : (n - 2 ^ (k + 1)) % 2 = n % 2 := by omega
      rw [if_neg hlt, if_neg (by omega)]
      show _ = mul (squares mul k (mul x x)) (power mul (k + 1) x y (n - 2 ^ (k + 1)))
      rw [power, hdiv, hmod]

/-- a power that falls at each `2 ^ k` falls everywhere -/
theorem power_antitone [Preorder α] (hmul : ∀ a, Monotone (mul a)) {K : ℕ}
    (hfalls : ∀ k < K, mul (squares mul k x) y ≤ power mul k x y (2 ^ k - 1)) :
    AntitoneOn (power mul K x y) (Set.Iio (2 ^ K)) := by
  induction K with
  | zero =>
    intro m _ n _ _
    exact le_rfl
  | succ K ih =>
    have hbelow := ih fun k hk => hfalls k (Nat.lt_succ_of_lt hk)
    intro m hm n hn hmn
    rw [power_succ hm, power_succ hn]
    simp only [Set.mem_Iio, pow_succ'] at hm hn
    by_cases hmK : m < 2 ^ K
    · rw [if_pos hmK]
      by_cases hnK : n < 2 ^ K
      · rw [if_pos hnK]
        exact hbelow hmK hnK hmn
      · -- from below `2 ^ K` to above it: over the last exponent below and the first above
        rw [if_neg hnK]
        have hpos : 0 < 2 ^ K := Nat.two_pow_pos K
        have hzero : power mul K x y (n - 2 ^ K) ≤ y := by
          have h := hbelow (Set.mem_Iio.2 hpos) (Set.mem_Iio.2 (by omega : n - 2 ^ K < 2 ^ K)) (Nat.zero_le _)
          rwa [power_zero] at h
        have hlast : power mul K x y (2 ^ K - 1) ≤ power mul K x y m :=
          hbelow hmK (Set.mem_Iio.2 (by omega)) (by omega)
        exact (hmul _ hzero).trans ((hfalls K (Nat.lt_succ_self K)).trans hlast)
    · rw [if_neg hmK, if_neg (by omega)]
      exact hmul _ (hbelow (Set.mem_Iio.2 (by omega)) (Set.mem_Iio.2 (by omega)) (by omega))

theorem squares_succ : squares mul (k + 1) x = mul (squares mul k x) (squares mul k x) := by
  induction k generalizing x with
  | zero => rfl
  | succ k ih =>
    show squares mul (k + 1) (mul x x) = _
    rw [ih]
    rfl

/-- Multiplying by a unit no less than `x`, the power falls at each `2 ^ k`: there the last factor is squared instead of
multiplied with the product of all before it, which is no less. -/
theorem squares_falls [Preorder α] (hmul : ∀ a, Monotone (mul a)) (hunit : ∀ a, mul a y = a) (hx : x ≤ y) (k : ℕ) :
    mul (squares mul k x) y ≤ power mul k x y (2 ^ k - 1) := by
  induction k with
  | zero =>
    rw [hunit]
    exact hx
  | succ k ih =>
    have hlast : 2 ^ (k + 1) - 1 - 2 ^ k = 2 ^ k - 1 := by
      rw [pow_succ']
      omega
    have hhigh : ¬ 2 ^ (k + 1) - 1 < 2 ^ k := by
      have hpos := Nat.two_pow_pos k
      rw [pow_succ']
      omega
    rw [hunit] at ih
    rw [hunit, squares_succ, power_succ (by have := Nat.two_pow_pos (k + 1); omega), if_neg hhigh, hlast]
    exact hmul _ ih

end SimContracts.Power
