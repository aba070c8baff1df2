/-
Sums over all keys of a map with finitely many keys: what changing one key does to them, and how they behave when
every account shrinks by the same factor or accrues in proportion to its share. Used for every "sum over all accounts"
of a contract: balances, stakes, deposits.
-/
import Mathlib.Algebra.BigOperators.Fin
import Mathlib.Algebra.Order.BigOperators.Ring.Finset
import Mathlib.Data.Fintype.BigOperators
import Mathlib.Tactic

namespace SimContracts.Ledger

variable {α β M : Type} [Fintype α]

/-- a summand is at most the sum -/
theorem le_sum (f : α → ℕ) (a : α) : f a ≤ ∑ x, f x :=
  Finset.single_le_sum (fun _ _ => Nat.zero_le _) (Finset.mem_univ a)

/-! ## Changing one account -/

section Replace

variable [DecidableEq α] [AddCommMonoid M]

/-- two sums that differ at one key only: its old summand is exchanged for its new one -/
theorem sum_replace {f g : α → M} {a : α} (h : ∀ x, x ≠ a → g x = f x) : ∑ x, g x + f a = ∑ x, f x + g a := by
  have hrest : ∑ x ∈ Finset.univ.erase a, g x = ∑ x ∈ Finset.univ.erase a, f x :=
    Finset.sum_congr rfl fun x hx => h x (Finset.ne_of_mem_erase hx)
  rw [← Finset.add_sum_erase _ g (Finset.mem_univ a), ← Finset.add_sum_erase _ f (Finset.mem_univ a), hrest]
  abel

/-- writing key `a` of a map exchanges its old summand for its new one -/
theorem sum_update (g : α → β → M) (m : α → β) (a : α) (v : β) :
    ∑ x, g x (Function.update m a v x) + g a (m a) = ∑ x, g x (m x) + g a v := by
  have h : ∀ x, x ≠ a → g x (Function.update m a v x) = g x (m x) := fun x hx => by rw [Function.update_of_ne hx]
  simpa using sum_replace h

end Replace

omit [Fintype α] in
/-- what a transfer does to the balances of a group: it leaves with the sender and comes with the recipient -/
theorem sum_transfer [DecidableEq α] {b b' : α → ℕ} {src dst : α} {amount : ℕ}
    (h : ∀ a, b' a + (if a = src then amount else 0) = b a + if a = dst then amount else 0) (S : Finset α) :
    ∑ a ∈ S, b' a + (if src ∈ S then amount else 0) = ∑ a ∈ S, b a + if dst ∈ S then amount else 0 := by
  have hsum := Finset.sum_congr rfl fun a (_ : a ∈ S) => h a
  simpa only [Finset.sum_add_distrib, Finset.sum_ite_eq'] using hsum

/-! ## Entries under keys -/

section Entries

omit [Fintype α]

variable [DecidableEq α] {key : β → α} {value : β → ℕ} {K : Finset α}

/-- a list of entries adds up key by key -/
theorem sum_by_key (l : List β) (hkey : ∀ x ∈ l, key x ∈ K) :
    (l.map value).sum = ∑ k ∈ K, ((l.filter (key · = k)).map value).sum := by
  induction l with
  | nil => simp
  | cons x l ih =>
    have hone : ∀ k, (((x :: l).filter (key · = k)).map value).sum =
        (if key x = k then value x else 0) + ((l.filter (key · = k)).map value).sum := by
      intro k
      rw [List.filter_cons]
      by_cases hk : key x = k <;> simp [hk]
    simp only [hone, Finset.sum_add_distrib, Finset.sum_ite_eq]
    rw [if_pos (hkey x List.mem_cons_self), List.map_cons, List.sum_cons, ih fun y hy => hkey y (List.mem_cons_of_mem _ hy)]

/-- entries within a bound for each key are together within the bounds, if only finitely many keys have one -/
theorem sum_le_bounds {bound : α → ℕ} (l : List β) (hle : ∀ k, ((l.filter (key · = k)).map value).sum ≤ bound k)
    (hnone : ∀ k, k ∉ K → bound k = 0) : (l.map value).sum ≤ ∑ k ∈ K, bound k :=
  calc (l.map value).sum = ∑ k ∈ (l.map key).toFinset, ((l.filter (key · = k)).map value).sum :=
        sum_by_key l fun _ hx => List.mem_toFinset.2 (List.mem_map_of_mem hx)
    _ ≤ ∑ k ∈ (l.map key).toFinset, bound k := Finset.sum_le_sum fun k _ => hle k
    _ ≤ ∑ k ∈ (l.map key).toFinset ∪ K, bound k :=
        Finset.sum_le_sum_of_subset_of_nonneg Finset.subset_union_left fun _ _ _ => Nat.zero_le _
    _ = ∑ k ∈ K, bound k := (Finset.sum_subset Finset.subset_union_right fun k _ hk => hnone k hk).symm

end Entries

/-! ## Shares of a pool -/

/-- every share shrinks at least by the factor `x`, and `x` of the pool is left: the shares stay covered -/
theorem shares_lose {share share' : α → ℚ} {x D D' : ℚ} (hshare : ∀ a, share' a ≤ share a * x) (hx : 0 ≤ x)
    (hD : ∑ a, share a ≤ D) (hD' : D * x ≤ D') : ∑ a, share' a ≤ D' :=
  calc ∑ a, share' a ≤ ∑ a, share a * x := Finset.sum_le_sum fun a _ => hshare a
    _ = (∑ a, share a) * x := (Finset.sum_mul _ _ _).symm
    _ ≤ D * x := mul_le_mul_of_nonneg_right hD hx
    _ ≤ D' := hD'

/-- shares of `T` rounded down: parts of `V` that add up to at most `V` get at most `T` together -/
theorem sum_floor_le {T V : ℕ} (parts : List ℕ) (h : parts.sum ≤ V) : (parts.map fun x => x * T / V).sum ≤ T := by
  have hfloor : ∀ l : List ℕ, (l.map fun x => x * T / V).sum ≤ l.sum * T / V := by
    intro l
    induction l with
    | nil => simp
    | cons x l ih =>
      simp only [List.map_cons, List.sum_cons, Nat.add_mul]
      exact (Nat.add_le_add_left ih _).trans Nat.div_add_div_le_add_div
  calc (parts.map fun x => x * T / V).sum ≤ parts.sum * T / V := hfloor parts
    _ ≤ V * T / V := Nat.div_le_div_right (Nat.mul_le_mul_right _ h)
    _ ≤ T := Nat.div_le_of_le_mul (by rw [Nat.mul_comm])

/-- every gain grows by at most `g` per unit of share: together at most by `g` times the pool -/
theorem gains_accrue {share gain gain' : α → ℚ} {g D : ℚ} (hgain : ∀ a, gain' a ≤ gain a + g * share a) (hg : 0 ≤ g)
    (hD : ∑ a, share a ≤ D) : ∑ a, gain' a ≤ ∑ a, gain a + g * D :=
  calc ∑ a, gain' a ≤ ∑ a, (gain a + g * share a) := Finset.sum_le_sum fun a _ => hgain a
    _ = ∑ a, gain a + g * ∑ a, share a := by rw [Finset.sum_add_distrib, Finset.mul_sum]
    _ ≤ ∑ a, gain a + g * D := by gcongr

end SimContracts.Ledger
