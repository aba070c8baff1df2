/-
The contracts around the SHADY token as one system: lockup contracts and their factory (`contracts/LockupContract.sol`,
`LockupContractFactory.sol`), and the two issuance contracts (`contracts/dependencies/Issuance.sol`).

The factory knows the token, the issuance contracts their issuers: the setters, which work once, have been called. The
address of a new lockup contract is an argument of the deployment. It is one at which the factory creates contracts,
and creation fails at an address with code.

Results:
  exec_balances    every call leaves the balances alone, or is a payment: by somebody who sends or signs, by an unlocked
                   lockup contract, or by an issuance contract out of what it has issued
-/
import SimContracts.Shady.Token

namespace SimContracts.Shady

open Solidity

/-! ## State and calls -/

def SECONDS_IN_ONE_YEAR : ℕ := 31536000
def SECONDS_IN_ONE_MINUTE : ℕ := 60
/-- half of the rest is issued in each year of minutes -/
def ISSUANCE_FACTOR : ℕ := 999998681227695000
def SHADYSupplyCap : ℕ := 30 * 10 ^ 24

structure LockupContract where
  beneficiary : Address
  unlockTime : ℕ

structure State where
  token : SHADYToken
  lockups : Address → Option LockupContract
  lockupContractToDeployer : Address → Address
  totalSHADYIssued : Program → ℕ

inductive Call (cfg : Config) where
  | token (call : TokenCall)
  | deployLockupContract (lockup : Address) (role_lockup : cfg.role lockup = .lockup) (beneficiary : Address)
      (unlockTime : ℕ)
  | withdrawSHADY (lockup : Address)
  | issueSHADY (p : Program)
  | sendSHADY (p : Program) (account : Address) (amount : ℕ)

structure Tx (cfg : Config) where
  env : Env cfg
  call : Call cfg

/-! ## Functions -/

section Functions

variable (cfg : Config)

def isRegisteredLockup (s : State) (contractAddress : Address) : Bool := s.lockupContractToDeployer contractAddress ≠ 0

/-- the state after the constructors -/
def deploy : Res State := do
  let erc20 ← allocations cfg
  pure ⟨⟨erc20, fun _ => 0⟩, fun _ => none, fun _ => 0, fun _ => 0⟩

/-- the constructor of a lockup contract -/
def newLockupContract (beneficiary : Address) (unlockTime : ℕ) : Res LockupContract := do
  let earliest ← uadd cfg.deploymentStartTime SECONDS_IN_ONE_YEAR
  require (unlockTime ≥ earliest)
    "LockupContract: unlock time must be at least one year after system deployment"
  pure ⟨beneficiary, unlockTime⟩

variable {cfg}

def deployLockupContract (s : State) (env : Env cfg) (lockup beneficiary : Address) (unlockTime : ℕ) : Res State := do
  require (s.lockups lockup = none) ""
  let lockupContract ← newLockupContract cfg beneficiary unlockTime
  pure { s with
    lockups := Function.update s.lockups lockup (some lockupContract)
    lockupContractToDeployer := Function.update s.lockupContractToDeployer lockup env.sender }

def withdrawSHADY (s : State) (env : Env cfg) (lockup : Address) : Res State :=
  match s.lockups lockup with
  -- a call to an address without code does nothing
  | none => .ok s
  | some contract => do
    require (env.sender = contract.beneficiary) "LockupContract: caller is not the beneficiary"
    require (env.timestamp ≥ contract.unlockTime) "LockupContract: The lockup duration must have passed"
    let balance := s.token.erc20.balanceOf lockup
    let token ← transfer cfg (isRegisteredLockup s) env.timestamp s.token lockup contract.beneficiary balance
    pure { s with token }

def requireCallerIsIssuer (env : Env cfg) (p : Program) : Res Unit :=
  require (env.sender = cfg.issuerAddress p) "CommunityIssuance: caller is not issuer"

variable (cfg) in
/-- 1 - f ^ t -/
def getCumulativeIssuanceFraction (timestamp : ℕ) (p : Program) : Res ℕ := do
  let timePassed ← usub timestamp (cfg.deploymentTime p)
  let power ← decPow ISSUANCE_FACTOR (timePassed / SECONDS_IN_ONE_MINUTE)
  let cumulativeIssuanceFraction ← usub DECIMAL_PRECISION power
  assert (cumulativeIssuanceFraction ≤ DECIMAL_PRECISION)
  pure cumulativeIssuanceFraction

/-- the state it leaves and the amount it returns -/
def issueSHADY (s : State) (env : Env cfg) (p : Program) : Res (State × ℕ) := do
  requireCallerIsIssuer env p
  let fraction ← getCumulativeIssuanceFraction cfg env.timestamp p
  let product ← umul SHADYSupplyCap fraction
  let latestTotalSHADYIssued := product / DECIMAL_PRECISION
  let issuance ← usub latestTotalSHADYIssued (s.totalSHADYIssued p)
  pure ({ s with totalSHADYIssued := Function.update s.totalSHADYIssued p latestTotalSHADYIssued }, issuance)

def sendSHADY (s : State) (env : Env cfg) (p : Program) (account : Address) (amount : ℕ) : Res State := do
  requireCallerIsIssuer env p
  let notIssued ← usub SHADYSupplyCap (s.totalSHADYIssued p)
  let needed ← uadd notIssued amount
  require (needed ≤ s.token.erc20.balanceOf (cfg.issuanceAddress p)) "Issuance: not enough issued SHADY"
  let token ← transfer cfg (isRegisteredLockup s) env.timestamp s.token (cfg.issuanceAddress p) account amount
  pure { s with token }

def exec (s : State) (tx : Tx cfg) : Res State :=
  match tx.call with
  | .token call => do
    let token ← tokenExec cfg (isRegisteredLockup s) tx.env s.token call
    pure { s with token }
  | .deployLockupContract lockup _ beneficiary unlockTime =>
    deployLockupContract s tx.env lockup beneficiary unlockTime
  | .withdrawSHADY lockup => withdrawSHADY s tx.env lockup
  | .issueSHADY p => do
    let (s, _) ← issueSHADY s tx.env p
    pure s
  | .sendSHADY p account amount => sendSHADY s tx.env p account amount

end Functions

/-! ## What a call does -/

variable {cfg : Config} {s s' : State} {tx : Tx cfg}

/-- who lives at which address -/
structure Inv (cfg : Config) (s : State) : Prop where
  unapproved : Unapproved cfg s.token
  registered : ∀ a, isRegisteredLockup s a → cfg.role a = .lockup
  lockups : ∀ a contract, s.lockups a = some contract →
    cfg.role a = .lockup ∧ cfg.deploymentStartTime + SECONDS_IN_ONE_YEAR ≤ contract.unlockTime

/-- the balances after a call -/
inductive Payment (s : State) (tx : Tx cfg) (b' : Address → ℕ) : Prop where
  | moved : Moved cfg (isRegisteredLockup s) tx.env.timestamp s.token.erc20.balanceOf b' → Payment s tx b'
  | withdrawn (lockup : Address) (contract : LockupContract) (amount : ℕ) : s.lockups lockup = some contract →
      contract.unlockTime ≤ tx.env.timestamp →
      Paid cfg (isRegisteredLockup s) tx.env.timestamp s.token.erc20.balanceOf b' lockup contract.beneficiary amount →
      Payment s tx b'
  | sent (p : Program) (account : Address) (amount : ℕ) : tx.call = .sendSHADY p account amount →
      SHADYSupplyCap - s.totalSHADYIssued p + amount ≤ s.token.erc20.balanceOf (cfg.issuanceAddress p) →
      Paid cfg (isRegisteredLockup s) tx.env.timestamp s.token.erc20.balanceOf b' (cfg.issuanceAddress p) account
        amount →
      Payment s tx b'

theorem Payment.same : Payment s tx s.token.erc20.balanceOf := .moved (.inl rfl)

/-- the addresses stay what they are if only the token changes -/
theorem Inv.token {token : SHADYToken} (hinv : Inv cfg s) (hun : Unapproved cfg token) :
    Inv cfg { s with token } := ⟨hun, hinv.registered, hinv.lockups⟩

theorem Inv.transfer {timestamp : ℕ} {src dst : Address} {amount : ℕ} {token : SHADYToken} (hinv : Inv cfg s)
    (h : transfer cfg (isRegisteredLockup s) timestamp s.token src dst amount = .ok token) :
    Inv cfg { s with token } := by
  refine hinv.token fun a ha x => ?_
  rw [(transfer_paid h).1]
  exact hinv.unapproved a ha x

theorem deployLockupContract_ok {env : Env cfg} {lockup beneficiary : Address} {unlockTime : ℕ}
    (h : deployLockupContract s env lockup beneficiary unlockTime = .ok s') :
    cfg.deploymentStartTime + SECONDS_IN_ONE_YEAR ≤ unlockTime ∧
      s' = { s with
        lockups := Function.update s.lockups lockup (some ⟨beneficiary, unlockTime⟩)
        lockupContractToDeployer := Function.update s.lockupContractToDeployer lockup env.sender } := by
  obtain ⟨-, h⟩ := require_bind.1 h
  obtain ⟨contract, hnew, h⟩ := bind_ok.1 h
  simp only [newLockupContract, uadd_bind, require_bind, pure_ok] at hnew
  obtain ⟨-, htime, rfl⟩ := hnew
  exact ⟨htime, (pure_ok.1 h).symm⟩

theorem withdrawSHADY_ok {env : Env cfg} {lockup : Address} (h : withdrawSHADY s env lockup = .ok s') :
    s' = s ∨ ∃ contract token, s.lockups lockup = some contract ∧ contract.unlockTime ≤ env.timestamp ∧
      transfer cfg (isRegisteredLockup s) env.timestamp s.token lockup contract.beneficiary
        (s.token.erc20.balanceOf lockup) = .ok token ∧ s' = { s with token } := by
  unfold withdrawSHADY at h
  cases hlockup : s.lockups lockup with
  | none =>
    rw [hlockup] at h
    exact .inl (Except.ok.inj h).symm
  | some contract =>
    rw [hlockup] at h
    simp only [require_bind] at h
    obtain ⟨-, htime, h⟩ := h
    obtain ⟨token, htransfer, h⟩ := bind_ok.1 h
    exact .inr ⟨contract, token, rfl, htime, htransfer, (pure_ok.1 h).symm⟩

/-- what has been issued up to now by this rule, at the time of the call -/
theorem issueSHADY_ok {env : Env cfg} {p : Program} {issuance : ℕ} (h : issueSHADY s env p = .ok (s', issuance)) :
    (∃ fraction, getCumulativeIssuanceFraction cfg env.timestamp p = .ok fraction ∧
      s.totalSHADYIssued p + issuance = SHADYSupplyCap * fraction / DECIMAL_PRECISION) ∧
    s' = { s with
      totalSHADYIssued := Function.update s.totalSHADYIssued p (s.totalSHADYIssued p + issuance) } := by
  obtain ⟨-, -, h⟩ := bind_ok.1 h
  obtain ⟨fraction, hfraction, h⟩ := bind_ok.1 h
  obtain ⟨-, h⟩ := umul_bind.1 h
  obtain ⟨hle, h⟩ := usub_bind.1 h
  obtain ⟨rfl, rfl⟩ := Prod.mk.inj (pure_ok.1 h)
  have hsum := Nat.add_sub_of_le hle
  exact ⟨⟨fraction, hfraction, hsum⟩, by rw [hsum]⟩

theorem sendSHADY_ok {env : Env cfg} {p : Program} {account : Address} {amount : ℕ}
    (h : sendSHADY s env p account amount = .ok s') :
    SHADYSupplyCap - s.totalSHADYIssued p + amount ≤ s.token.erc20.balanceOf (cfg.issuanceAddress p) ∧
      ∃ token, transfer cfg (isRegisteredLockup s) env.timestamp s.token (cfg.issuanceAddress p) account amount =
        .ok token ∧ s' = { s with token } := by
  obtain ⟨-, -, h⟩ := bind_ok.1 h
  obtain ⟨-, h⟩ := usub_bind.1 h
  obtain ⟨-, h⟩ := uadd_bind.1 h
  obtain ⟨hfunds, h⟩ := require_bind.1 h
  obtain ⟨token, htransfer, h⟩ := bind_ok.1 h
  exact ⟨hfunds, token, htransfer, (pure_ok.1 h).symm⟩

/-- **A call of the system.** It keeps the addresses apart, and does to the balances what a payment does. -/
theorem exec_balances (hinv : Inv cfg s) (h : exec s tx = .ok s') :
    Inv cfg s' ∧ Payment s tx s'.token.erc20.balanceOf := by
  obtain ⟨env, call⟩ := tx
  cases call with
  | token call =>
    obtain ⟨token, htoken, h⟩ := bind_ok.1 h
    obtain rfl := pure_ok.1 h
    obtain ⟨hun, hmoved⟩ := tokenExec_ok hinv.unapproved htoken
    exact ⟨hinv.token hun, .moved hmoved⟩
  | deployLockupContract lockup hrole beneficiary unlockTime =>
    obtain ⟨htime, rfl⟩ := deployLockupContract_ok h
    have hlockups : ∀ a contract, Function.update s.lockups lockup (some ⟨beneficiary, unlockTime⟩) a = some contract →
        cfg.role a = .lockup ∧ cfg.deploymentStartTime + SECONDS_IN_ONE_YEAR ≤ contract.unlockTime := by
      intro a contract ha
      by_cases he : a = lockup
      · subst he
        rw [Function.update_self] at ha
        obtain rfl := Option.some.inj ha
        exact ⟨hrole, htime⟩
      · rw [Function.update_of_ne he] at ha
        exact hinv.lockups a contract ha
    refine ⟨⟨hinv.unapproved, fun a ha => ?_, hlockups⟩, .same⟩
    by_cases he : a = lockup
    · rw [he]
      exact hrole
    · refine hinv.registered a ?_
      simpa [isRegisteredLockup, Function.update_of_ne he] using ha
  | withdrawSHADY lockup =>
    rcases withdrawSHADY_ok h with rfl | ⟨contract, token, hlockup, htime, htransfer, rfl⟩
    · exact ⟨hinv, .same⟩
    · exact ⟨hinv.transfer htransfer, .withdrawn lockup contract _ hlockup htime (transfer_paid htransfer).2⟩
  | issueSHADY p =>
    obtain ⟨⟨s₁, issuance⟩, hissue, h⟩ := bind_ok.1 h
    obtain rfl := pure_ok.1 h
    obtain ⟨-, rfl⟩ := issueSHADY_ok hissue
    exact ⟨⟨hinv.unapproved, hinv.registered, hinv.lockups⟩, .same⟩
  | sendSHADY p account amount =>
    obtain ⟨hfunds, token, htransfer, rfl⟩ := sendSHADY_ok h
    exact ⟨hinv.transfer htransfer, .sent p account amount rfl hfunds (transfer_paid htransfer).2⟩

/-- a registered lockup contract stays registered -/
theorem exec_registered {a : Address} (h : exec s tx = .ok s') (ha : isRegisteredLockup s a) :
    isRegisteredLockup s' a := by
  obtain ⟨env, call⟩ := tx
  cases call with
  | token call =>
    obtain ⟨token, -, h⟩ := bind_ok.1 h
    obtain rfl := pure_ok.1 h
    exact ha
  | deployLockupContract lockup hrole beneficiary unlockTime =>
    obtain ⟨-, rfl⟩ := deployLockupContract_ok h
    by_cases he : a = lockup
    · subst he
      simpa [isRegisteredLockup] using env.sender_ne
    · simpa [isRegisteredLockup, Function.update_of_ne he] using ha
  | withdrawSHADY lockup =>
    rcases withdrawSHADY_ok h with rfl | ⟨contract, token, -, -, -, rfl⟩
    · exact ha
    · exact ha
  | issueSHADY p =>
    obtain ⟨⟨s₁, issuance⟩, hissue, h⟩ := bind_ok.1 h
    obtain rfl := pure_ok.1 h
    obtain ⟨-, rfl⟩ := issueSHADY_ok hissue
    exact ha
  | sendSHADY p account amount =>
    obtain ⟨-, token, -, rfl⟩ := sendSHADY_ok h
    exact ha

/-! ## The first state -/

theorem mint_ok {timestamp : ℕ} {t t' : ERC20} {account : Address} {amount : ℕ}
    (h : mint cfg (fun _ => false) timestamp t account amount = .ok t') :
    t'.allowance = t.allowance ∧ t'.balanceOf = Function.update t.balanceOf account (t.balanceOf account + amount) := by
  obtain ⟨-, -, h⟩ := bind_ok.1 h
  exact (ERC20.mint_ok h).2

theorem ne_of_role {a b : Address} (h : cfg.role a ≠ cfg.role b) : a ≠ b := fun e => h (by rw [e])

theorem issuanceAddress_ne {p q : Program} (h : p ≠ q) : cfg.issuanceAddress p ≠ cfg.issuanceAddress q :=
  ne_of_role (by rw [cfg.role_issuance, cfg.role_issuance]; exact fun e => h (Role.issuance.inj e))

theorem issuanceAddress_ne_account {p : Program} {a : Address} (h : cfg.role a = .account) :
    cfg.issuanceAddress p ≠ a :=
  ne_of_role (by rw [cfg.role_issuance, h]; exact nofun)

/-- after the constructors nobody has approved anybody, each issuance contract has its 30 million, the multisig 26 -/
theorem deploy_ok (h : deploy cfg = .ok s) :
    Inv cfg s ∧ (∀ p, s.token.erc20.balanceOf (cfg.issuanceAddress p) = SHADYSupplyCap) ∧
      26 * _1_MILLION ≤ s.token.erc20.balanceOf cfg.multisigAddress ∧ s.totalSHADYIssued = fun _ => 0 := by
  obtain ⟨erc20, halloc, h⟩ := bind_ok.1 h
  obtain rfl := pure_ok.1 h
  obtain ⟨t₁, h1, halloc⟩ := bind_ok.1 halloc
  obtain ⟨t₂, h2, halloc⟩ := bind_ok.1 halloc
  obtain ⟨t₃, h3, h4⟩ := bind_ok.1 halloc
  obtain ⟨ha1, hb1⟩ := mint_ok h1
  obtain ⟨ha2, hb2⟩ := mint_ok h2
  obtain ⟨ha3, hb3⟩ := mint_ok h3
  obtain ⟨ha4, hb4⟩ := mint_ok h4
  have hallow : erc20.allowance = ERC20.empty.allowance := by rw [ha4, ha3, ha2, ha1]
  refine ⟨⟨fun a _ x => by simp [hallow, ERC20.empty], by simp [isRegisteredLockup], nofun⟩, ?_, ?_, rfl⟩
  · intro p
    -- later mints are for other addresses
    have hm : cfg.issuanceAddress p ≠ cfg.multisigAddress := issuanceAddress_ne_account cfg.role_multisig
    have hs : cfg.issuanceAddress p ≠ cfg.spenderAddress := issuanceAddress_ne_account cfg.role_spender
    show erc20.balanceOf (cfg.issuanceAddress p) = SHADYSupplyCap
    rw [hb4, Function.update_of_ne hm, hb3, Function.update_of_ne hs, hb2]
    cases p with
    | community =>
      rw [Function.update_of_ne (issuanceAddress_ne (by decide)), hb1, Function.update_self]
      norm_num [ERC20.empty, _1_MILLION, SHADYSupplyCap]
    | liquidityRewards =>
      rw [Function.update_self, hb1, Function.update_of_ne (issuanceAddress_ne (by decide))]
      norm_num [ERC20.empty, _1_MILLION, SHADYSupplyCap]
  · show _ ≤ erc20.balanceOf cfg.multisigAddress
    rw [hb4, Function.update_self]
    unfold _1_MILLION
    omega

/-- issuance contracts at 10 and 11, lockup contracts at 20 and 21, issuers 7 and 8, and no valid signature -/
def exampleConfig : Config where
  self := 9
  role a :=
    if a = 10 then .issuance .community
    else if a = 11 then .issuance .liquidityRewards
    else if a = 20 ∨ a = 21 then .lockup
    else .account
  issuanceAddress
    | .community => 10
    | .liquidityRewards => 11
  spenderAddress := 4
  multisigAddress := 5
  deploymentStartTime := 1000
  issuerAddress
    | .community => 7
    | .liquidityRewards => 8
  deploymentTime := fun _ => 1000
  recover := fun _ _ => .error (.error "ECDSA: invalid signature")
  role_issuance
    | .community => by decide
    | .liquidityRewards => by decide
  role_spender := by decide
  role_multisig := by decide
  role_recover := nofun

end SimContracts.Shady
