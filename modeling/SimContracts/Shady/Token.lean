/-
The SHADY token (`contracts/SHADYToken.sol`): an ERC20 token with permits. In its first year the multisig can neither
approve nor pay anybody but registered lockup contracts; it can still sign permits. Nobody can pay the issuance
contracts or the token itself.

The factory's answer to `isRegisteredLockup` is an argument (`registered`). The signature scheme is a parameter: `recover`
answers with the signer of a permit, who is never one of the contracts of this system. These contracts have no key and
send no transactions of their own either, which `role` says: an address is one of the two issuance contracts, an address
at which the factory creates a lockup contract sooner or later, or anybody else. That the addresses passed to the
constructor have code is not modelled.

Results:
  transfer_paid    what a transfer does to the balances, and whom it can not reach
  tokenExec_ok     a call of the token leaves the balances alone or is such a transfer by somebody who sends or signs
-/
import SimContracts.ERC20

namespace SimContracts.Shady

open Solidity

/-! ## Constants and parameters -/

def ONE_YEAR_IN_SECONDS : ℕ := 31536000
def _1_MILLION : ℕ := 10 ^ 24

/-- the issuance contracts -/
inductive Program where
  | community
  | liquidityRewards
deriving DecidableEq, Repr

/-- who is at an address -/
inductive Role where
  | account
  | issuance (program : Program)
  | lockup
deriving DecidableEq, Repr

/-- what the owner of tokens signs -/
structure Permit where
  owner : Address
  spender : Address
  value : ℕ
  nonce : ℕ
  deadline : ℕ

structure Signature where
  v : ℕ
  r : ℕ
  s : ℕ

structure Config where
  /-- the token contract itself -/
  self : Address
  role : Address → Role
  issuanceAddress : Program → Address
  spenderAddress : Address
  multisigAddress : Address
  deploymentStartTime : ℕ
  /-- set once in each issuance contract -/
  issuerAddress : Program → Address
  deploymentTime : Program → ℕ
  recover : Permit → Signature → Res Address
  role_issuance : ∀ p, role (issuanceAddress p) = .issuance p
  role_spender : role spenderAddress = .account
  role_multisig : role multisigAddress = .account
  role_recover : ∀ permit signature a, recover permit signature = .ok a → role a = .account

/-- the block and the sender -/
structure Env (cfg : Config) where
  timestamp : ℕ
  sender : Address
  sender_ne : sender ≠ 0
  role_sender : cfg.role sender = .account

structure SHADYToken where
  erc20 : ERC20
  nonces : Address → ℕ

inductive TokenCall where
  | transfer (dst : Address) (amount : ℕ)
  | transferFrom (src dst : Address) (amount : ℕ)
  | approve (spender : Address) (amount : ℕ)
  | increaseAllowance (spender : Address) (addedValue : ℕ)
  | decreaseAllowance (spender : Address) (subtractedValue : ℕ)
  | permit (owner spender : Address) (value deadline : ℕ) (signature : Signature)

/-! ## Functions -/

section Functions

variable (cfg : Config) (registered : Address → Bool)

def isFirstYear (timestamp : ℕ) : Res Bool := do
  let passed ← usub timestamp cfg.deploymentStartTime
  pure (decide (passed < ONE_YEAR_IN_SECONDS))

def requireRecipientIsRegisteredLC (recipient : Address) : Res Unit :=
  require (registered recipient) "SHADY: recipient must be a LockupContract registered in the Factory"

def requireCallerIsNotMultisig (env : Env cfg) : Res Unit :=
  require (env.sender ≠ cfg.multisigAddress) "SHADY: caller must not be the multisig"

def requireValidRecipient (recipient : Address) : Res Unit := do
  require (recipient ≠ cfg.self) "SHADY: Cannot transfer tokens directly to the SHADY token contract"
  require (recipient ≠ cfg.issuanceAddress .community ∧ recipient ≠ cfg.issuanceAddress .liquidityRewards)
    "SHADY: Cannot transfer tokens directly to an issuance or ve contract"

/-- the restriction of the multisig's transfers in `_beforeTokenTransfer` -/
def restrictMultisig (timestamp : ℕ) (src dst : Address) : Res Unit := do
  if src = cfg.multisigAddress then
    if ← isFirstYear cfg timestamp then requireRecipientIsRegisteredLC registered dst

def beforeTokenTransfer (timestamp : ℕ) (src dst : Address) : Res Unit := do
  restrictMultisig cfg registered timestamp src dst
  if src ≠ 0 then requireValidRecipient cfg dst

def mint (timestamp : ℕ) (t : ERC20) (account : Address) (amount : ℕ) : Res ERC20 := do
  beforeTokenTransfer cfg registered timestamp 0 account
  t.mint account amount

/-- the balances after the constructor: nothing is registered yet -/
def allocations : Res ERC20 := do
  let depositorsEntitlement := _1_MILLION * 30
  let lpRewardsEntitlement := _1_MILLION * 30
  let spenderEntitlement := _1_MILLION * 14
  let multisigEntitlement := _1_MILLION * 100 - depositorsEntitlement - lpRewardsEntitlement - spenderEntitlement
  let time := cfg.deploymentStartTime
  let t ← mint cfg (fun _ => false) time .empty (cfg.issuanceAddress .community) depositorsEntitlement
  let t ← mint cfg (fun _ => false) time t (cfg.issuanceAddress .liquidityRewards) lpRewardsEntitlement
  let t ← mint cfg (fun _ => false) time t cfg.spenderAddress spenderEntitlement
  mint cfg (fun _ => false) time t cfg.multisigAddress multisigEntitlement

/-- `_transfer` -/
def transfer (timestamp : ℕ) (t : SHADYToken) (src dst : Address) (amount : ℕ) : Res SHADYToken := do
  require (src ≠ 0) "ERC20: transfer from the zero address"
  require (dst ≠ 0) "ERC20: transfer to the zero address"
  beforeTokenTransfer cfg registered timestamp src dst
  let erc20 ← t.erc20.transfer src dst amount
  pure { t with erc20 }

def transferFrom (env : Env cfg) (t : SHADYToken) (src dst : Address) (amount : ℕ) : Res SHADYToken := do
  let erc20 ← t.erc20.spendAllowance src env.sender amount
  transfer cfg registered env.timestamp { t with erc20 } src dst amount

/-- the first lines of the three functions that change allowances -/
def restrictApprovals (env : Env cfg) : Res Unit := do
  if ← isFirstYear cfg env.timestamp then requireCallerIsNotMultisig cfg env

def approve (env : Env cfg) (t : SHADYToken) (spender : Address) (amount : ℕ) : Res SHADYToken := do
  restrictApprovals cfg env
  let erc20 ← t.erc20.approve env.sender spender amount
  pure { t with erc20 }

def increaseAllowance (env : Env cfg) (t : SHADYToken) (spender : Address) (addedValue : ℕ) : Res SHADYToken := do
  restrictApprovals cfg env
  let amount ← uadd (t.erc20.allowance env.sender spender) addedValue
  let erc20 ← t.erc20.approve env.sender spender amount
  pure { t with erc20 }

def decreaseAllowance (env : Env cfg) (t : SHADYToken) (spender : Address) (subtractedValue : ℕ) : Res SHADYToken := do
  restrictApprovals cfg env
  let currentAllowance := t.erc20.allowance env.sender spender
  require (currentAllowance ≥ subtractedValue) "ERC20: decreased allowance below zero"
  let erc20 ← t.erc20.approve env.sender spender (currentAllowance - subtractedValue)
  pure { t with erc20 }

def permit (env : Env cfg) (t : SHADYToken) (owner spender : Address) (value deadline : ℕ) (signature : Signature) :
    Res SHADYToken := do
  require (env.timestamp ≤ deadline) "ERC20Permit: expired deadline"
  let signer ← cfg.recover ⟨owner, spender, value, t.nonces owner, deadline⟩ signature
  require (signer = owner) "ERC20Permit: invalid signature"
  let erc20 ← t.erc20.approve owner spender value
  pure { erc20, nonces := Function.update t.nonces owner (t.nonces owner + 1) }

def tokenExec (env : Env cfg) (t : SHADYToken) : TokenCall → Res SHADYToken
  | .transfer dst amount => transfer cfg registered env.timestamp t env.sender dst amount
  | .transferFrom src dst amount => transferFrom cfg registered env t src dst amount
  | .approve spender amount => approve cfg env t spender amount
  | .increaseAllowance spender addedValue => increaseAllowance cfg env t spender addedValue
  | .decreaseAllowance spender subtractedValue => decreaseAllowance cfg env t spender subtractedValue
  | .permit owner spender value deadline signature => permit cfg env t owner spender value deadline signature

end Functions

/-! ## What a call does -/

variable {cfg : Config} {registered : Address → Bool} {env : Env cfg} {t t' : SHADYToken}

/-- `amount` went from `src` to `dst`, as the token allows at the time -/
structure Paid (cfg : Config) (registered : Address → Bool) (timestamp : ℕ) (b b' : Address → ℕ) (src dst : Address)
    (amount : ℕ) : Prop where
  balance : ∀ a, b' a + (if a = src then amount else 0) = b a + if a = dst then amount else 0
  /-- nobody pays an issuance contract -/
  issuance : ∀ p, dst ≠ cfg.issuanceAddress p
  /-- in the first year the multisig pays only registered lockup contracts -/
  firstYear : src = cfg.multisigAddress → timestamp < cfg.deploymentStartTime + ONE_YEAR_IN_SECONDS → registered dst

theorem restrictMultisig_ok {timestamp : ℕ} {dst : Address}
    (h : restrictMultisig cfg registered timestamp cfg.multisigAddress dst = .ok ())
    (hyear : timestamp < cfg.deploymentStartTime + ONE_YEAR_IN_SECONDS) : registered dst := by
  simp only [restrictMultisig, isFirstYear, if_true, bind_assoc, usub_bind, pure_bind] at h
  obtain ⟨hle, h⟩ := h
  rw [if_pos (decide_eq_true (by omega))] at h
  exact require_ok.1 h

theorem requireValidRecipient_ok {dst : Address} (h : requireValidRecipient cfg dst = .ok ()) (p : Program) :
    dst ≠ cfg.issuanceAddress p := by
  simp only [requireValidRecipient, require_bind, require_ok] at h
  cases p with
  | community => exact h.2.1
  | liquidityRewards => exact h.2.2

theorem transfer_paid {timestamp : ℕ} {src dst : Address} {amount : ℕ}
    (h : transfer cfg registered timestamp t src dst amount = .ok t') :
    t'.erc20.allowance = t.erc20.allowance ∧
      Paid cfg registered timestamp t.erc20.balanceOf t'.erc20.balanceOf src dst amount := by
  simp only [transfer, require_bind] at h
  obtain ⟨hsrc, -, h⟩ := h
  obtain ⟨⟨⟩, hbefore, h⟩ := bind_ok.1 h
  obtain ⟨erc20, htransfer, h⟩ := bind_ok.1 h
  obtain rfl := pure_ok.1 h
  simp only [beforeTokenTransfer, if_pos hsrc] at hbefore
  obtain ⟨⟨⟩, hrestrict, hvalid⟩ := bind_ok.1 hbefore
  refine ⟨(ERC20.transfer_ok htransfer).2.2.1, ERC20.transfer_balance htransfer, requireValidRecipient_ok hvalid, ?_⟩
  rintro rfl hyear
  exact restrictMultisig_ok hrestrict hyear

/-- the contracts of the system approve nobody -/
def Unapproved (cfg : Config) (t : SHADYToken) : Prop := ∀ a, cfg.role a ≠ .account → ∀ x, t.erc20.allowance a x = 0

/-- what a call leaves of the balances: the same ones, or a transfer by somebody who sends or signs -/
def Moved (cfg : Config) (registered : Address → Bool) (timestamp : ℕ) (b b' : Address → ℕ) : Prop :=
  b' = b ∨ ∃ src dst amount, cfg.role src = .account ∧ Paid cfg registered timestamp b b' src dst amount

theorem Unapproved.approve {erc20 : ERC20} {owner spender : Address} {amount : ℕ} {nonces : Address → ℕ}
    (hun : Unapproved cfg t) (howner : cfg.role owner = .account) (h : t.erc20.approve owner spender amount = .ok erc20) :
    Unapproved cfg ⟨erc20, nonces⟩ ∧ erc20.balanceOf = t.erc20.balanceOf := by
  obtain ⟨hb, -, hallow⟩ := ERC20.approve_ok h
  refine ⟨fun a ha x => ?_, hb⟩
  have hne : a ≠ owner := by
    rintro rfl
    exact ha howner
  show erc20.allowance a x = 0
  rw [hallow, Function.update_of_ne hne]
  exact hun a ha x

theorem Unapproved.transferFrom {src dst : Address} {amount : ℕ} (hun : Unapproved cfg t)
    (h : transferFrom cfg registered env t src dst amount = .ok t') :
    Unapproved cfg t' ∧ Moved cfg registered env.timestamp t.erc20.balanceOf t'.erc20.balanceOf := by
  obtain ⟨erc20, hspend, htransfer⟩ := bind_ok.1 h
  obtain ⟨hallow, hpaid⟩ := transfer_paid htransfer
  -- what spending the allowance changes: the owner's allowance only
  have hspent : erc20.balanceOf = t.erc20.balanceOf ∧ (∀ a, a ≠ src → erc20.allowance a = t.erc20.allowance a) ∧
      (cfg.role src ≠ .account → amount = 0 ∧ ∀ x, erc20.allowance src x = 0) := by
    unfold ERC20.spendAllowance at hspend
    split_ifs at hspend with hmax
    · cases hspend
      refine ⟨rfl, fun _ _ => rfl, fun hsrc => ?_⟩
      rw [hun src hsrc] at hmax
      exact absurd hmax (by decide)
    · obtain ⟨hle, happrove⟩ := require_bind.1 hspend
      obtain ⟨hb, -, hal⟩ := ERC20.approve_ok happrove
      refine ⟨hb, fun a ha => by rw [hal, Function.update_of_ne ha], fun hsrc => ?_⟩
      rw [hun src hsrc] at hle hal
      refine ⟨Nat.le_zero.1 hle, fun x => ?_⟩
      rw [hal, Function.update_self]
      by_cases hx : x = env.sender
      · simp [hx]
      · rw [Function.update_of_ne hx, hun src hsrc]
  obtain ⟨hb, hothers, hsrc⟩ := hspent
  simp only [hb] at hpaid
  constructor
  · intro a ha x
    rw [hallow]
    by_cases hs : a = src
    · subst hs
      exact (hsrc ha).2 x
    · show erc20.allowance a x = 0
      rw [hothers a hs]
      exact hun a ha x
  · by_cases hrole : cfg.role src = .account
    · exact .inr ⟨src, dst, amount, hrole, hpaid⟩
    · -- from a contract of the system nothing moves
      obtain ⟨rfl, -⟩ := hsrc hrole
      exact .inl (funext fun a => by simpa using hpaid.balance a)

/-- **A call of the token.** It leaves the balances alone, or pays from somebody who sends or signs. -/
theorem tokenExec_ok {call : TokenCall} (hun : Unapproved cfg t) (h : tokenExec cfg registered env t call = .ok t') :
    Unapproved cfg t' ∧ Moved cfg registered env.timestamp t.erc20.balanceOf t'.erc20.balanceOf := by
  cases call with
  | transfer dst amount =>
    obtain ⟨hallow, hpaid⟩ := transfer_paid h
    refine ⟨fun a ha x => ?_, .inr ⟨env.sender, dst, amount, env.role_sender, hpaid⟩⟩
    rw [hallow]
    exact hun a ha x
  | transferFrom src dst amount => exact hun.transferFrom h
  | approve spender amount =>
    obtain ⟨-, -, h⟩ := bind_ok.1 h
    obtain ⟨erc20, happrove, h⟩ := bind_ok.1 h
    obtain rfl := pure_ok.1 h
    exact (hun.approve env.role_sender happrove).imp_right .inl
  | increaseAllowance spender addedValue =>
    obtain ⟨-, -, h⟩ := bind_ok.1 h
    obtain ⟨-, h⟩ := uadd_bind.1 h
    obtain ⟨erc20, happrove, h⟩ := bind_ok.1 h
    obtain rfl := pure_ok.1 h
    exact (hun.approve env.role_sender happrove).imp_right .inl
  | decreaseAllowance spender subtractedValue =>
    obtain ⟨-, -, h⟩ := bind_ok.1 h
    obtain ⟨-, h⟩ := require_bind.1 h
    obtain ⟨erc20, happrove, h⟩ := bind_ok.1 h
    obtain rfl := pure_ok.1 h
    exact (hun.approve env.role_sender happrove).imp_right .inl
  | permit owner spender value deadline signature =>
    obtain ⟨-, h⟩ := require_bind.1 h
    obtain ⟨signer, hsigner, h⟩ := bind_ok.1 h
    obtain ⟨rfl, h⟩ := require_bind.1 h
    obtain ⟨erc20, happrove, h⟩ := bind_ok.1 h
    obtain rfl := pure_ok.1 h
    exact (hun.approve (cfg.role_recover _ _ _ hsigner) happrove).imp_right .inl

end SimContracts.Shady
