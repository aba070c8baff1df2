/-
The ratio of a total, rounded down, when one part of it changes. `C / D` is the ratio of the total, `c / d` that of the
part; the part is added, or grows from `c / d` to `(c + y) / (d + x)`.
-/
import Mathlib.Tactic

namespace SimContracts.Ratio

variable {C D c d x y t N : ℕ}

/-- a part with a ratio of at least `t` does not take a total below `t` -/
theorem le_div_add (hD : 0 < D + d) (ht : t * D ≤ C) (hd : t * d ≤ c) : t ≤ (C + c) / (D + d) := by
  rw [Nat.le_div_iff_mul_le hD, Nat.mul_add]
  exact Nat.add_le_add ht hd

/-- more of the first and less of the second makes a ratio larger -/
theorem div_le_div_of (hC : C ≤ c) (hd : d ≤ D) (hpos : 0 < d) : C / D ≤ c / d :=
  (Nat.div_le_div_right hC).trans (Nat.div_le_div_left hd hpos)

/-- a part that grows without a smaller ratio, rounded down, takes at most one unit from the ratio of the total -/
theorem le_div_grow (hd : 0 < d) (hdD : d ≤ D) (ht : t ≤ C / D) (htN : t ≤ N) (hold : c / d ≤ N)
    (hnew : N ≤ (c + y) / (d + x)) : t ≤ (C + y) / (D + x) + 1 := by
  have hC : t * D ≤ C := (Nat.le_div_iff_mul_le (by omega)).1 ht
  have hc : c < (N + 1) * d := (Nat.div_lt_iff_lt_mul hd).1 (Nat.lt_succ_of_le hold)
  have hy : N * (d + x) ≤ c + y := (Nat.le_div_iff_mul_le (by omega)).1 hnew
  have hx : t * x ≤ N * x := Nat.mul_le_mul_right x htN
  -- what the part loses to rounding is less than its debt, so less than one unit of the total
  have hlt : t * (D + x) < C + y + (D + x) := by
    rw [Nat.mul_add] at hy ⊢
    rw [Nat.add_mul, Nat.one_mul] at hc
    omega
  have hq : (C + y + (D + x)) / (D + x) = (C + y) / (D + x) + 1 := Nat.add_div_right _ (by omega)
  rw [← hq, Nat.le_div_iff_mul_le (by omega)]
  exact hlt.le

end SimContracts.Ratio
