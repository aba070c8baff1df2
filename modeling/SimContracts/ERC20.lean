/-
OpenZeppelin's ERC20 as the contracts use it: balances, allowances and total supply. `mint`, `burn` and `_transfer`
refuse the zero address; an allowance of `type(uint256).max` is not spent. The additions OpenZeppelin makes unchecked
cannot overflow, because the balances add up to a supply that is checked: they are plain additions here.

Results:
  transfer_sum, mint_sum, burn_sum   what each operation does to the sum of all balances
-/
import SimContracts.Base
import SimContracts.Core.Ledger

namespace SimContracts

open Solidity

structure ERC20 where
  balanceOf : Address → ℕ
  allowance : Address → Address → ℕ
  totalSupply : ℕ

namespace ERC20

variable {t t' : ERC20} {src dst spender : Address} {amount : ℕ}

/-- a token nobody holds -/
def empty : ERC20 := ⟨fun _ => 0, fun _ _ => 0, 0⟩

/-! ## Operations -/

/-- `_transfer` -/
def transfer (t : ERC20) (src dst : Address) (amount : ℕ) : Res ERC20 := do
  require (src ≠ 0) "ERC20: transfer from the zero address"
  require (dst ≠ 0) "ERC20: transfer to the zero address"
  require (amount ≤ t.balanceOf src) "ERC20: transfer amount exceeds balance"
  let balances := Function.update t.balanceOf src (t.balanceOf src - amount)
  pure { t with balanceOf := Function.update balances dst (balances dst + amount) }

def approve (t : ERC20) (owner spender : Address) (amount : ℕ) : Res ERC20 := do
  require (owner ≠ 0) "ERC20: approve from the zero address"
  require (spender ≠ 0) "ERC20: approve to the zero address"
  pure { t with allowance := Function.update t.allowance owner (Function.update (t.allowance owner) spender amount) }

def spendAllowance (t : ERC20) (owner spender : Address) (amount : ℕ) : Res ERC20 :=
  if t.allowance owner spender = uintMax then .ok t
  else do
    require (amount ≤ t.allowance owner spender) "ERC20: insufficient allowance"
    approve t owner spender (t.allowance owner spender - amount)

def transferFrom (t : ERC20) (spender src dst : Address) (amount : ℕ) : Res ERC20 := do
  let t ← spendAllowance t src spender amount
  transfer t src dst amount

def mint (t : ERC20) (account : Address) (amount : ℕ) : Res ERC20 := do
  require (account ≠ 0) "ERC20: mint to the zero address"
  let totalSupply ← uadd t.totalSupply amount
  pure { t with totalSupply, balanceOf := Function.update t.balanceOf account (t.balanceOf account + amount) }

def burn (t : ERC20) (account : Address) (amount : ℕ) : Res ERC20 := do
  require (account ≠ 0) "ERC20: burn from the zero address"
  require (amount ≤ t.balanceOf account) "ERC20: burn amount exceeds balance"
  pure { t with
    totalSupply := t.totalSupply - amount
    balanceOf := Function.update t.balanceOf account (t.balanceOf account - amount) }

/-! ## What they do to the balances -/

theorem transfer_ok (h : transfer t src dst amount = .ok t') :
    amount ≤ t.balanceOf src ∧ t'.totalSupply = t.totalSupply ∧ t'.allowance = t.allowance ∧
      t'.balanceOf = Function.update (Function.update t.balanceOf src (t.balanceOf src - amount)) dst
        (Function.update t.balanceOf src (t.balanceOf src - amount) dst + amount) := by
  simp only [transfer, require_bind, pure_ok] at h
  obtain ⟨-, -, hle, rfl⟩ := h
  exact ⟨hle, rfl, rfl, rfl⟩

theorem transfer_succeeds (hsrc : src ≠ 0) (hdst : dst ≠ 0) (hle : amount ≤ t.balanceOf src) :
    ∃ t', transfer t src dst amount = .ok t' := by
  simp only [transfer, require_bind]
  exact ⟨_, hsrc, hdst, hle, rfl⟩

/-- a transfer takes `amount` from one balance and adds it to another, which may be the same one -/
theorem transfer_balance (h : transfer t src dst amount = .ok t') (a : Address) :
    t'.balanceOf a + (if a = src then amount else 0) = t.balanceOf a + if a = dst then amount else 0 := by
  obtain ⟨hle, -, -, hb⟩ := transfer_ok h
  rw [hb]
  by_cases hd : a = dst <;> by_cases hs : a = src
  · subst hd hs
    simp
    omega
  · subst hd
    simp [hs]
  · subst hs
    rw [Function.update_of_ne hd, Function.update_self, if_pos rfl, if_neg hd]
    omega
  · rw [Function.update_of_ne hd, Function.update_of_ne hs, if_neg hd, if_neg hs]

theorem transfer_sum (h : transfer t src dst amount = .ok t') : ∑ a, t'.balanceOf a = ∑ a, t.balanceOf a := by
  have hsum : ∑ a, (t'.balanceOf a + if a = src then amount else 0) =
      ∑ a, (t.balanceOf a + if a = dst then amount else 0) := Finset.sum_congr rfl fun a _ => transfer_balance h a
  simpa [Finset.sum_add_distrib] using hsum

theorem transferFrom_ok (h : transferFrom t spender src dst amount = .ok t') :
    ∃ t₁, t₁.balanceOf = t.balanceOf ∧ t₁.totalSupply = t.totalSupply ∧ transfer t₁ src dst amount = .ok t' := by
  obtain ⟨t₁, h1, h2⟩ := bind_ok.1 h
  refine ⟨t₁, ?_, ?_, h2⟩ <;> unfold spendAllowance at h1 <;> split_ifs at h1
  · cases h1; rfl
  · simp only [approve, require_bind, pure_ok] at h1
    obtain ⟨-, -, -, rfl⟩ := h1
    rfl
  · cases h1; rfl
  · simp only [approve, require_bind, pure_ok] at h1
    obtain ⟨-, -, -, rfl⟩ := h1
    rfl

theorem mint_ok (h : mint t src amount = .ok t') :
    t'.totalSupply = t.totalSupply + amount ∧ t'.allowance = t.allowance ∧
      t'.balanceOf = Function.update t.balanceOf src (t.balanceOf src + amount) := by
  simp only [mint, require_bind, uadd_bind, pure_ok] at h
  obtain ⟨-, -, rfl⟩ := h
  exact ⟨rfl, rfl, rfl⟩

theorem mint_sum (h : mint t src amount = .ok t') : ∑ a, t'.balanceOf a = ∑ a, t.balanceOf a + amount := by
  obtain ⟨-, -, hb⟩ := mint_ok h
  have hsum := Ledger.sum_update (fun _ (b : ℕ) => b) t.balanceOf src (t.balanceOf src + amount)
  rw [← hb] at hsum
  omega

theorem burn_ok (h : burn t src amount = .ok t') :
    amount ≤ t.balanceOf src ∧ t'.totalSupply = t.totalSupply - amount ∧ t'.allowance = t.allowance ∧
      t'.balanceOf = Function.update t.balanceOf src (t.balanceOf src - amount) := by
  simp only [burn, require_bind, pure_ok] at h
  obtain ⟨-, hle, rfl⟩ := h
  exact ⟨hle, rfl, rfl, rfl⟩

theorem burn_sum (h : burn t src amount = .ok t') : ∑ a, t'.balanceOf a + amount = ∑ a, t.balanceOf a := by
  obtain ⟨hle, -, -, hb⟩ := burn_ok h
  have hsum := Ledger.sum_update (fun _ (b : ℕ) => b) t.balanceOf src (t.balanceOf src - amount)
  rw [← hb] at hsum
  omega

/-! ### An account that approves nobody -/

theorem approve_ok {owner : Address} (h : approve t owner spender amount = .ok t') :
    t'.balanceOf = t.balanceOf ∧ t'.totalSupply = t.totalSupply ∧
      t'.allowance = Function.update t.allowance owner (Function.update (t.allowance owner) spender amount) := by
  simp only [approve, require_bind, pure_ok] at h
  obtain ⟨-, -, rfl⟩ := h
  exact ⟨rfl, rfl, rfl⟩

/-- nothing but a gift reaches the balance of an account that approved nobody through `transferFrom` -/
theorem transferFrom_unapproved (h : transferFrom t spender src dst amount = .ok t') {a : Address}
    (ha : ∀ x, t.allowance a x = 0) :
    (∀ x, t'.allowance a x = 0) ∧ t'.balanceOf a = t.balanceOf a + (if a = dst then amount else 0) ∧
      (src = a → amount = 0) := by
  obtain ⟨t₁, h1, h2⟩ := bind_ok.1 h
  obtain ⟨-, -, hallow, -⟩ := transfer_ok h2
  have hbal := transfer_balance h2 a
  rw [hallow]
  unfold spendAllowance at h1
  split_ifs at h1 with hmax
  · cases h1
    have hne : a ≠ src := by
      rintro rfl
      rw [ha] at hmax
      exact absurd hmax (by simp [uintMax])
    rw [if_neg hne, Nat.add_zero] at hbal
    exact ⟨ha, hbal, fun e => absurd e.symm hne⟩
  · simp only [require_bind] at h1
    obtain ⟨hle, h1⟩ := h1
    obtain ⟨hb, -, hal⟩ := approve_ok h1
    have hzero : src = a → amount = 0 := by
      rintro rfl
      rw [ha] at hle
      omega
    refine ⟨fun x => ?_, ?_, hzero⟩
    · rw [hal]
      by_cases hs : a = src
      · subst hs
        rw [Function.update_self]
        by_cases hx : x = spender
        · simp [hx, ha]
        · rw [Function.update_of_ne hx, ha]
      · rw [Function.update_of_ne hs, ha]
    · rw [hb] at hbal
      by_cases hs : a = src
      · rw [if_pos hs, hzero hs.symm, Nat.add_zero] at hbal
        rw [hzero hs.symm]
        exact hbal
      · rw [if_neg hs, Nat.add_zero] at hbal
        exact hbal

/-- a transfer by somebody else can only add to a balance -/
theorem transfer_other (h : transfer t src dst amount = .ok t') {a : Address} (ha : a ≠ src) :
    t'.balanceOf a = t.balanceOf a + if a = dst then amount else 0 := by
  have hbal := transfer_balance h a
  rwa [if_neg ha, Nat.add_zero] at hbal

/-! ### What others can spend -/

/-- `a` approved nobody any further, and lost at most what others spent of its allowances -/
structure Spent (a : Address) (t t' : ERC20) : Prop where
  allowance : ∀ x, t'.allowance a x ≤ t.allowance a x
  balance : t.balanceOf a + ∑ x, t'.allowance a x ≤ t'.balanceOf a + ∑ x, t.allowance a x

theorem Spent.refl (a : Address) (t : ERC20) : Spent a t t := ⟨fun _ => le_rfl, le_rfl⟩

theorem Spent.trans {a : Address} {t₁ t₂ t₃ : ERC20} (h : Spent a t₁ t₂) (h' : Spent a t₂ t₃) : Spent a t₁ t₃ := by
  have hbal := h.balance
  have hbal' := h'.balance
  exact ⟨fun x => (h'.allowance x).trans (h.allowance x), by omega⟩

theorem Spent.of_transfer (h : transfer t src dst amount = .ok t') {a : Address} (ha : a ≠ src) : Spent a t t' := by
  have hbal := transfer_other h ha
  obtain ⟨-, -, hallow, -⟩ := transfer_ok h
  exact ⟨fun x => by rw [hallow], by rw [hallow]; omega⟩

theorem Spent.of_approve {owner : Address} (h : approve t owner spender amount = .ok t') {a : Address} (ha : a ≠ owner) :
    Spent a t t' := by
  obtain ⟨hb, -, hallow⟩ := approve_ok h
  have hsame : t'.allowance a = t.allowance a := by rw [hallow, Function.update_of_ne ha]
  exact ⟨fun x => by rw [hsame], by rw [hsame, hb]⟩

/-- spending an allowance that is not the infinite one takes the amount from it -/
theorem spendAllowance_finite {owner : Address} (h : spendAllowance t owner spender amount = .ok t')
    (hfinite : t.allowance owner spender < uintMax) :
    t'.balanceOf = t.balanceOf ∧ amount ≤ t.allowance owner spender ∧ t'.allowance =
      Function.update t.allowance owner (Function.update (t.allowance owner) spender (t.allowance owner spender - amount)) := by
  unfold spendAllowance at h
  rw [if_neg (Nat.ne_of_lt hfinite), require_bind] at h
  obtain ⟨hle, h⟩ := h
  obtain ⟨hb, -, hallow⟩ := approve_ok h
  exact ⟨hb, hle, hallow⟩

/-- what a spender takes from `a` is taken from an allowance -/
theorem Spent.of_spend {t₁ : ERC20} (h1 : spendAllowance t src spender amount = .ok t₁)
    (h2 : transfer t₁ src dst amount = .ok t') {a : Address} (hfinite : ∀ x, t.allowance a x < uintMax) : Spent a t t' := by
  by_cases hsrc : a = src
  · subst hsrc
    obtain ⟨hb, hle, hallow₁⟩ := spendAllowance_finite h1 (hfinite spender)
    obtain ⟨-, -, hallow, -⟩ := transfer_ok h2
    have hbal := transfer_balance h2 a
    rw [if_pos rfl, hb] at hbal
    have hrow : t'.allowance a = Function.update (t.allowance a) spender (t.allowance a spender - amount) := by
      rw [hallow, hallow₁, Function.update_self]
    have hsum := Ledger.sum_update (fun _ (b : ℕ) => b) (t.allowance a) spender (t.allowance a spender - amount)
    rw [← hrow] at hsum
    refine ⟨fun x => ?_, by omega⟩
    rw [hrow]
    by_cases hx : x = spender
    · rw [hx, Function.update_self]
      exact Nat.sub_le _ _
    · rw [Function.update_of_ne hx]
  · refine Spent.trans ?_ (.of_transfer h2 hsrc)
    unfold spendAllowance at h1
    split_ifs at h1
    · cases h1
      exact .refl _ _
    · exact .of_approve (require_bind.1 h1).2 hsrc

end ERC20

end SimContracts
