/-
Rewards per unit staked. A running sum `perUnit` grows with every amount that is distributed over all stakes; an account
is owed its stake times the growth since its own snapshot, in units of `1 / D`, rounded down when it is paid. The rounding
error of a distribution is carried to the next one.

`Backed` says that the pool covers everything that is owed and the carried error. Distributions and payments keep it, and
so does any change of one account that does not raise what it is owed.
-/
import SimContracts.Core.Ledger

namespace SimContracts

variable {α : Type} [Fintype α]

/-- stakes with snapshots of a running sum, and the pool the rewards are paid from -/
structure Accrual (α : Type) where
  stake : α → ℕ
  snapshot : α → ℕ
  perUnit : ℕ
  error : ℕ
  pool : ℕ

namespace Accrual

variable {x y : Accrual α} {D : ℕ} {a b : α}

/-- what an account is owed, in units of `1 / D` -/
def owed (x : Accrual α) (a : α) : ℕ := x.stake a * (x.perUnit - x.snapshot a)

/-- the pool covers what is owed -/
structure Backed (D : ℕ) (x : Accrual α) : Prop where
  snapshot_le : ∀ a, x.snapshot a ≤ x.perUnit
  covered : ∑ a, x.owed a + x.error ≤ x.pool * D

namespace Backed

/-- every account can be paid, all of them together -/
theorem sum_le (h : Backed D x) (hD : 0 < D) : ∑ a, x.owed a / D ≤ x.pool := by
  have hfloor : (∑ a, x.owed a / D) * D ≤ ∑ a, x.owed a := by
    rw [Finset.sum_mul]
    exact Finset.sum_le_sum fun a _ => Nat.div_mul_le_self _ _
  have hcovered := h.covered
  refine Nat.le_of_mul_le_mul_right ?_ hD
  omega

theorem le_pool (h : Backed D x) (hD : 0 < D) (a : α) : x.owed a / D ≤ x.pool :=
  (Ledger.le_sum (fun a => x.owed a / D) a).trans (h.sum_le hD)

/-- one account changes, and `paid` leaves the pool for it: what it is still owed and what it got is at most what it was
owed -/
theorem replace [DecidableEq α] {paid : ℕ} (h : Backed D x) (hother : ∀ a, a ≠ b → y.stake a = x.stake a ∧
      y.snapshot a = x.snapshot a) (hsnap : y.snapshot b ≤ y.perUnit) (hL : y.perUnit = x.perUnit)
    (herror : y.error = x.error) (hpool : y.pool = x.pool - paid) (hle : y.owed b + paid * D ≤ x.owed b) :
    Backed D y := by
  have hsum := Ledger.sum_replace (f := x.owed) (g := y.owed) (a := b) fun a ha => by
    simp only [owed, hother a ha, hL]
  have hone := Ledger.le_sum x.owed b
  have hcovered := h.covered
  refine ⟨fun a => ?_, ?_⟩
  · by_cases ha : a = b
    · rw [ha]
      exact hsnap
    · rw [(hother a ha).2, hL]
      exact h.snapshot_le a
  · rw [hpool, herror, Nat.sub_mul]
    omega

/-- an amount is distributed over all stakes, its error carried on -/
theorem accrue {r e amount total : ℕ} (h : Backed D x) (htotal : total = ∑ a, x.stake a)
    (hr : r * total + e = amount * D + x.error) (hstake : y.stake = x.stake) (hsnap : y.snapshot = x.snapshot)
    (hL : y.perUnit = x.perUnit + r) (herror : y.error = e) (hpool : y.pool = x.pool + amount) : Backed D y := by
  have hgrow : ∀ a, y.owed a = x.owed a + r * x.stake a := by
    intro a
    have hle := h.snapshot_le a
    have hd : x.perUnit + r - x.snapshot a = (x.perUnit - x.snapshot a) + r := by omega
    simp only [owed, hstake, hsnap, hL, hd, Nat.mul_add]
    ring
  have hsum : ∑ a, y.owed a = ∑ a, x.owed a + r * total := by
    rw [htotal, Finset.mul_sum, ← Finset.sum_add_distrib]
    exact Finset.sum_congr rfl fun a _ => hgrow a
  have hcovered := h.covered
  refine ⟨fun a => ?_, ?_⟩
  · rw [hsnap, hL]
    exact (h.snapshot_le a).trans (Nat.le_add_right _ _)
  · rw [hsum, herror, hpool, Nat.add_mul]
    omega

end Backed

end Accrual

end SimContracts
