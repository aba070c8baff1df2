/-
The constants and pure functions every contract of the system shares (`dependencies/Base.sol`, `BaseMath.sol`,
`LiquityMath.sol`). Amounts are 18-digit decimals. `LiquityMath._min` and `_max` are Lean's `min` and `max`.
-/
import SimContracts.Core.Power
import SimContracts.Core.Solidity

namespace SimContracts

open Solidity

/-! ## Addresses -/

/-- an account or contract address -/
def Address : Type := Fin (2 ^ 160)

namespace Address

instance : DecidableEq Address := inferInstanceAs (DecidableEq (Fin (2 ^ 160)))
noncomputable instance : Fintype Address := inferInstanceAs (Fintype (Fin (2 ^ 160)))
instance (n : ℕ) : OfNat Address n := ⟨(Fin.ofNat (2 ^ 160) n : Fin (2 ^ 160))⟩
instance : Inhabited Address := ⟨0⟩

theorem five_ne_zero : (5 : Address) ≠ 0 := by decide

end Address

/-! ## Constants -/

def DECIMAL_PRECISION : ℕ := 10 ^ 18
def _100pct : ℕ := 1000000000000000000
/-- minimum collateral ratio of a trove, 110% -/
def MCR : ℕ := 1100000000000000000
/-- critical system collateral ratio, 150% -/
def CCR : ℕ := 1500000000000000000
def MIN_NET_DEBT : ℕ := 10 ^ 18
/-- dividing by 200 yields 0.5% -/
def PERCENT_DIVISOR : ℕ := 200
def BORROWING_FEE_FLOOR : ℕ := DECIMAL_PRECISION / 1000 * 5
def NICR_PRECISION : ℕ := 10 ^ 20

/-! ## LiquityMath -/

/-- product of two decimals, rounded to the nearest -/
def decMul (x y : ℕ) : Res ℕ := do
  let prod_xy ← umul x y
  udiv (← uadd prod_xy (DECIMAL_PRECISION / 2)) DECIMAL_PRECISION

/-- the square-and-multiply loop of `_decPow`; `n` at least halves in each round, so `fuel = n` rounds are enough -/
def decPowLoop : ℕ → ℕ → ℕ → ℕ → Res ℕ
  | 0, x, y, _ => decMul x y
  | fuel + 1, x, y, n =>
    if 1 < n then
      if n % 2 = 0 then do
        let x ← decMul x x
        decPowLoop fuel x y (n / 2)
      else do
        let y ← decMul x y
        let x ← decMul x x
        decPowLoop fuel x y ((n - 1) / 2)
    else decMul x y

/-- `base ^ minutes`, the exponent capped at 1000 years -/
def decPow (base minutes : ℕ) : Res ℕ :=
  let n := min minutes 525600000
  if n = 0 then .ok DECIMAL_PRECISION else decPowLoop n base DECIMAL_PRECISION n

/-- `decMul` without the overflow checks -/
def roundedMul (x y : ℕ) : ℕ := (x * y + DECIMAL_PRECISION / 2) / DECIMAL_PRECISION

theorem roundedMul_mono (x : ℕ) : Monotone (roundedMul x) := by
  intro y z h
  exact Nat.div_le_div_right (Nat.add_le_add_right (Nat.mul_le_mul_left x h) _)

section Fractions

variable {x y : ℕ} (hx : x ≤ DECIMAL_PRECISION) (hy : y ≤ DECIMAL_PRECISION)
include hx hy

theorem roundedMul_le : roundedMul x y ≤ DECIMAL_PRECISION := by
  have hprod : x * y ≤ DECIMAL_PRECISION * DECIMAL_PRECISION := Nat.mul_le_mul hx hy
  refine Nat.lt_succ_iff.1 (Nat.div_lt_of_lt_mul ?_)
  unfold DECIMAL_PRECISION at hprod ⊢
  omega

theorem decMul_ok : decMul x y = .ok (roundedMul x y) := by
  have hprod : x * y ≤ DECIMAL_PRECISION * DECIMAL_PRECISION := Nat.mul_le_mul hx hy
  have hlt : DECIMAL_PRECISION * DECIMAL_PRECISION + DECIMAL_PRECISION / 2 < 2 ^ 256 := by decide
  rw [decMul, umul_bind, uadd_bind, udiv_ok]
  exact ⟨by omega, by omega, by decide, rfl⟩

theorem decPowLoop_ok {fuel k n : ℕ} (hn : 0 < n) (hfuel : n ≤ fuel) (hk : n < 2 ^ k) :
    decPowLoop fuel x y n = .ok (Power.power roundedMul k x y n) := by
  induction fuel generalizing k x y n with
  | zero => omega
  | succ fuel ih =>
    cases k with
    | zero => omega
    | succ k =>
      have hhalf : n / 2 < 2 ^ k := by
        rw [pow_succ'] at hk
        omega
      rw [decPowLoop, Power.power]
      split_ifs with hlast heven
      · rw [decMul_ok hx hx, ok_bind, ih (roundedMul_le hx hx) hy (by omega) (by omega) hhalf]
      · rw [decMul_ok hx hy, ok_bind, decMul_ok hx hx, ok_bind,
          show (n - 1) / 2 = n / 2 by omega,
          ih (roundedMul_le hx hx) (roundedMul_le hx hy) (by omega) (by omega) hhalf]
      · omega
      · rw [decMul_ok hx hy, show n / 2 = 0 by omega, Power.power_zero]

end Fractions

/-- the exponent has at most 29 bits -/
theorem decPow_ok {base : ℕ} (hbase : base ≤ DECIMAL_PRECISION) (minutes : ℕ) :
    decPow base minutes = .ok (Power.power roundedMul 29 base DECIMAL_PRECISION (min minutes 525600000)) := by
  unfold decPow
  simp only
  split_ifs with hzero
  · rw [hzero, Power.power_zero]
  · exact decPowLoop_ok hbase le_rfl (by omega) le_rfl (by omega)

/-- the power of a fraction is one -/
theorem decPow_le {base : ℕ} (hbase : base ≤ DECIMAL_PRECISION) (minutes : ℕ) :
    ∃ r, decPow base minutes = .ok r ∧ r ≤ DECIMAL_PRECISION :=
  ⟨_, decPow_ok hbase minutes,
    Power.power_induction (P := (· ≤ DECIMAL_PRECISION)) (fun _ _ => roundedMul_le) hbase le_rfl⟩

/-- collateral ratio without a price; "infinite" for a debt of 0 -/
def computeNominalCR (coll debt : ℕ) : Res ℕ :=
  if 0 < debt then do udiv (← umul coll NICR_PRECISION) debt else .ok uintMax

def computeCR (coll debt price : ℕ) : Res ℕ :=
  if 0 < debt then do udiv (← umul coll price) debt else .ok uintMax

/-! ## Base -/

/-- drawn debt; the gas compensation of the original protocol is commented out -/
def getCompositeDebt (debt : ℕ) : ℕ := debt
def getNetDebt (debt : ℕ) : ℕ := debt
def getCollGasCompensation (entireColl : ℕ) : ℕ := entireColl / PERCENT_DIVISOR

def requireUserAcceptsFee (fee amount maxFeePercentage : ℕ) : Res Unit := do
  let feePercentage ← udiv (← umul fee DECIMAL_PRECISION) amount
  require (feePercentage ≤ maxFeePercentage) "Fee exceeded provided maximum"

theorem computeCR_ok {coll debt price r : ℕ} (h : computeCR coll debt price = .ok r) :
    r = if 0 < debt then coll * price / debt else uintMax := by
  unfold computeCR at h
  split_ifs at h ⊢
  · simp only [umul_bind, udiv_ok] at h
    exact h.2.2.symm
  · cases h; rfl

/-- only collateral gives a debt a ratio -/
theorem computeNominalCR_coll_pos {coll debt r : ℕ} (h : computeNominalCR coll debt = .ok r) (hdebt : 0 < debt)
    (hr : 0 < r) : 0 < coll := by
  rw [computeNominalCR, if_pos hdebt] at h
  simp only [umul_bind, udiv_ok] at h
  obtain ⟨-, -, rfl⟩ := h
  rcases Nat.eq_zero_or_pos coll with rfl | hpos
  · simp at hr
  · exact hpos

end SimContracts
