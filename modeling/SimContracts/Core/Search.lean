/-
Binary search for the last index with a key at most a target, in a history whose keys never decrease. The contracts run
the same loop with a fixed number of rounds and two ways of rounding the middle up: `(min + max + 1) / 2` and
`(min + max + 2) / 2`.

Results:
  searchLast_eq_lastAt   enough rounds find the last index at most `max` whose key is at most the target, or 0
  lastAt_append          entries beyond the target do not change it
-/
import Mathlib.Tactic

namespace SimContracts.Search

/-- the search loop: `lo` is known to be at most the target, indices above `hi` are known to be beyond it -/
def searchLast (key : ℕ → ℕ) (target carry : ℕ) : ℕ → ℕ → ℕ → ℕ
  | 0, lo, _ => lo
  | rounds + 1, lo, hi =>
    if hi ≤ lo then lo
    else
      let mid := (lo + hi + carry) / 2
      if key mid ≤ target then searchLast key target carry rounds mid hi
      else searchLast key target carry rounds lo (mid - 1)

/-- `i` is the last index up to `hi` with a key at most the target, counting `lo` as one -/
structure IsLast (key : ℕ → ℕ) (target lo hi i : ℕ) : Prop where
  lo_le : lo ≤ i
  le_hi : i ≤ hi
  at_most : lo < i → key i ≤ target
  beyond : ∀ j, i < j → j ≤ hi → target < key j

variable {key : ℕ → ℕ} {target carry : ℕ}

theorem searchLast_le (hcarry : carry = 1 ∨ carry = 2) (rounds lo hi : ℕ) (hle : lo ≤ hi) :
    searchLast key target carry rounds lo hi ≤ hi := by
  induction rounds generalizing lo hi with
  | zero => exact hle
  | succ rounds ih =>
    rw [searchLast]
    dsimp only
    split_ifs with hstop
    · exact hle
    · exact ih _ _ (by omega)
    · exact (ih _ _ (by omega)).trans (by omega)

/-- whatever the keys are, an index the search moved to is at most the target -/
theorem searchLast_at_most (rounds lo hi : ℕ) :
    searchLast key target carry rounds lo hi = lo ∨ key (searchLast key target carry rounds lo hi) ≤ target := by
  induction rounds generalizing lo hi with
  | zero => exact .inl rfl
  | succ rounds ih =>
    rw [searchLast]
    dsimp only
    split_ifs with hstop hkey
    · exact .inl rfl
    · rcases ih ((lo + hi + carry) / 2) hi with h | h
      · rw [h]
        exact .inr hkey
      · exact .inr h
    · exact ih _ _

/-- **Binary search.** Where the keys up to `hi` never decrease, `rounds` rounds are enough for an interval shorter
than `2 ^ rounds`. -/
theorem searchLast_spec (hcarry : carry = 1 ∨ carry = 2) (rounds lo hi : ℕ) (hle : lo ≤ hi)
    (hlen : hi - lo < 2 ^ rounds) (hmono : ∀ i j, lo < i → i ≤ j → j ≤ hi → key i ≤ key j) :
    IsLast key target lo hi (searchLast key target carry rounds lo hi) := by
  induction rounds generalizing lo hi with
  | zero =>
    have heq : lo = hi := by
      simp at hlen
      omega
    subst heq
    rw [searchLast]
    exact ⟨le_rfl, le_rfl, fun h => absurd h (lt_irrefl _), fun j h1 h2 => by omega⟩
  | succ rounds ih =>
    rw [searchLast]
    dsimp only
    have hpow : 2 ^ (rounds + 1) = 2 * 2 ^ rounds := by ring
    split_ifs with hstop hkey
    · exact ⟨le_rfl, hle, fun h => absurd h (lt_irrefl _), fun j h1 h2 => by omega⟩
    · -- the middle is at most the target: continue above it
      have hmid : lo < (lo + hi + carry) / 2 ∧ (lo + hi + carry) / 2 ≤ hi := by omega
      have h := ih ((lo + hi + carry) / 2) hi hmid.2 (by omega) fun i j h1 h2 h3 => hmono i j (by omega) h2 h3
      refine ⟨hmid.1.le.trans h.lo_le, h.le_hi, fun _ => ?_, h.beyond⟩
      rcases h.lo_le.lt_or_eq with hlt | heq
      · exact h.at_most hlt
      · rw [← heq]
        exact hkey
    · -- the middle is beyond the target, and with it everything above
      have hmid : lo < (lo + hi + carry) / 2 ∧ (lo + hi + carry) / 2 ≤ hi := by omega
      have h := ih lo ((lo + hi + carry) / 2 - 1) (by omega) (by omega) fun i j h1 h2 h3 => hmono i j h1 h2 (by omega)
      refine ⟨h.lo_le, h.le_hi.trans (by omega), h.at_most, fun j h1 h2 => ?_⟩
      by_cases hj : j ≤ (lo + hi + carry) / 2 - 1
      · exact h.beyond j h1 hj
      · have := hmono ((lo + hi + carry) / 2) j hmid.1 (by omega) h2
        omega

/-! ## The last index, without a search -/

/-- the last index up to `n` with a key at most the target, or 0 -/
def lastAt (key : ℕ → ℕ) (target n : ℕ) : ℕ := Nat.findGreatest (fun k => key k ≤ target) n

theorem lastAt_le (key : ℕ → ℕ) (target n : ℕ) : lastAt key target n ≤ n := Nat.findGreatest_le n

/-- an index at most the target, with everything above it beyond, is the last one -/
theorem lastAt_eq {n m : ℕ} (hle : m ≤ n) (hm : m ≠ 0 → key m ≤ target) (hbeyond : ∀ k, m < k → k ≤ n → target < key k) :
    lastAt key target n = m := by
  refine Nat.findGreatest_eq_iff.2 ⟨hle, hm, ?_⟩
  intro k h1 h2
  exact not_le.2 (hbeyond k h1 h2)

theorem lastAt_greatest {n : ℕ} (h : ∃ i ≤ n, key i ≤ target) :
    IsGreatest {i | i ≤ n ∧ key i ≤ target} (lastAt key target n) := by
  obtain ⟨i, hi, hkey⟩ := h
  refine ⟨⟨lastAt_le _ _ _, Nat.findGreatest_spec (P := fun k => key k ≤ target) hi hkey⟩, ?_⟩
  rintro j ⟨hj, hkey'⟩
  exact Nat.le_findGreatest hj hkey'

theorem lastAt_none {n : ℕ} (h : ∀ i ≤ n, target < key i) : lastAt key target n = 0 :=
  lastAt_eq (Nat.zero_le n) (absurd rfl) fun k _ hk => h k hk

theorem lastAt_append {key' : ℕ → ℕ} {n n' : ℕ} (hsame : ∀ k, k ≤ n → key' k = key k) (hle : n ≤ n')
    (hnew : ∀ k, n < k → k ≤ n' → target < key' k) : lastAt key' target n' = lastAt key target n := by
  have hlast : lastAt key target n ≤ n := lastAt_le _ _ _
  refine lastAt_eq (hlast.trans hle) ?_ ?_
  · intro h0
    rw [hsame _ hlast]
    exact Nat.findGreatest_of_ne_zero (P := fun k => key k ≤ target) rfl h0
  · intro k h1 h2
    rcases le_or_gt k n with hk | hk
    · rw [hsame k hk]
      exact not_le.1 (Nat.findGreatest_is_greatest (P := fun k => key k ≤ target) h1 hk)
    · exact hnew k hk h2

/-- **The search finds the last index.** -/
theorem searchLast_eq_lastAt (hcarry : carry = 1 ∨ carry = 2) {rounds n : ℕ} (hlen : n < 2 ^ rounds)
    (hmono : ∀ i j, i ≤ j → j ≤ n → key i ≤ key j) :
    searchLast key target carry rounds 0 n = lastAt key target n := by
  have h : IsLast key target 0 n (searchLast key target carry rounds 0 n) :=
    searchLast_spec hcarry rounds 0 n (Nat.zero_le _) hlen fun i j _ => hmono i j
  exact (lastAt_eq h.le_hi (fun h0 => h.at_most (Nat.pos_of_ne_zero h0)) h.beyond).symm

end SimContracts.Search
