/-
What a holder of SHADY can rely on. A lockup contract keeps its tokens until its beneficiary takes them, which works from the
unlock time on; nobody can take tokens from an account that neither sends nor signs anything, beyond the allowances it gave
before; and a signed permit is good for one use, in the order of the nonces.

An allowance of `type(uint256).max` is not used up, so the second result asks that the holder gave none.

Results:
  lockup_holds       a lockup contract's terms never change, and its balance does not fall before its beneficiary withdraws
  lockup_opens       when a withdrawal succeeds: all of the balance goes to the beneficiary
  idle_holder_keeps  what a holder loses while it does nothing
  permits_in_order   which permit is accepted when, and that none is accepted twice
-/
import SimContracts.Shady.System

namespace SimContracts.Shady

open Solidity

variable {cfg : Config} {s s' : State} {tx : Tx cfg} {env : Env cfg} {lockup a owner : Address} {contract : LockupContract}

/-! ## Lockup contracts -/

deriving instance DecidableEq for LockupContract

/-- the call is the beneficiary's withdrawal, at the unlock time or later -/
def Tx.Opens (tx : Tx cfg) (lockup : Address) (contract : LockupContract) : Prop :=
  match tx.call with
  | .withdrawSHADY l => l = lockup ∧ tx.env.sender = contract.beneficiary ∧ contract.unlockTime ≤ tx.env.timestamp
  | _ => False

instance : Decidable (tx.Opens lockup contract) := by
  unfold Tx.Opens
  split <;> infer_instance

/-- the terms of a lockup contract stay -/
theorem exec_lockups (hlockup : s.lockups lockup = some contract) (h : exec s tx = .ok s') :
    s'.lockups lockup = some contract := by
  obtain ⟨env, call⟩ := tx
  cases call with
  | token call =>
    obtain ⟨token, -, h⟩ := bind_ok.1 h
    obtain rfl := pure_ok.1 h
    exact hlockup
  | deployLockupContract l hrole beneficiary unlockTime =>
    have hnew : s.lockups l = none := (require_bind.1 h).1
    obtain ⟨-, rfl⟩ := deployLockupContract_ok h
    have hne : lockup ≠ l := by
      rintro rfl
      rw [hnew] at hlockup
      cases hlockup
    show Function.update s.lockups l _ lockup = _
    rw [Function.update_of_ne hne, hlockup]
  | withdrawSHADY l =>
    rcases withdrawSHADY_ok h with rfl | ⟨-, token, -, -, -, rfl⟩
    · exact hlockup
    · exact hlockup
  | issueSHADY p =>
    obtain ⟨⟨s₁, issuance⟩, hissue, h⟩ := bind_ok.1 h
    obtain rfl := pure_ok.1 h
    obtain ⟨-, rfl⟩ := issueSHADY_ok hissue
    exact hlockup
  | sendSHADY p account amount =>
    obtain ⟨-, token, -, rfl⟩ := sendSHADY_ok h
    exact hlockup

/-- a payment by somebody else can only add to a balance -/
theorem Paid.other {registered : Address → Bool} {timestamp amount : ℕ} {b b' : Address → ℕ} {src dst : Address}
    (h : Paid cfg registered timestamp b b' src dst amount) (ha : a ≠ src) : b a ≤ b' a := by
  have hbal := h.balance a
  rw [if_neg ha] at hbal
  omega

theorem transfer_other {token : SHADYToken} {timestamp amount : ℕ} {src dst : Address}
    (h : transfer cfg (isRegisteredLockup s) timestamp s.token src dst amount = .ok token) (ha : a ≠ src) :
    s.token.erc20.balanceOf a ≤ token.erc20.balanceOf a := (transfer_paid h).2.other ha

theorem transfer_recipient {token t : SHADYToken} {registered : Address → Bool} {timestamp amount : ℕ} {src dst : Address}
    (h : transfer cfg registered timestamp t src dst amount = .ok token) : dst ≠ cfg.self := by
  simp only [transfer, require_bind] at h
  obtain ⟨hsrc, -, h⟩ := h
  obtain ⟨_, hbefore, -⟩ := bind_ok.1 h
  obtain ⟨_, -, hvalid⟩ := bind_ok.1 hbefore
  rw [if_pos hsrc] at hvalid
  exact (require_bind.1 hvalid).1

theorem transfer_erc20 {token t : SHADYToken} {registered : Address → Bool} {timestamp amount : ℕ} {src dst : Address}
    (h : transfer cfg registered timestamp t src dst amount = .ok token) :
    t.erc20.transfer src dst amount = .ok token.erc20 ∧ token.nonces = t.nonces := by
  simp only [transfer, require_bind] at h
  obtain ⟨-, -, h⟩ := h
  obtain ⟨_, -, h⟩ := bind_ok.1 h
  obtain ⟨erc20, htransfer, h⟩ := bind_ok.1 h
  rw [← pure_ok.1 h]
  exact ⟨htransfer, rfl⟩

/-- a lockup contract can pay any account but the token contract -/
theorem transfer_lockup {t : SHADYToken} {amount : ℕ} {dst : Address} (registered : Address → Bool) (timestamp : ℕ)
    (hrole : cfg.role lockup = .lockup) (hne : lockup ≠ 0) (hdst : dst ≠ 0) (hself : dst ≠ cfg.self)
    (haccount : cfg.role dst = .account) (hle : amount ≤ t.erc20.balanceOf lockup) :
    ∃ t', transfer cfg registered timestamp t lockup dst amount = .ok t' := by
  obtain ⟨erc20, htransfer⟩ := ERC20.transfer_succeeds hne hdst hle
  have hmultisig : lockup ≠ cfg.multisigAddress := ne_of_role (by rw [hrole, cfg.role_multisig]; exact Role.noConfusion)
  have hissuance := fun p => (issuanceAddress_ne_account (p := p) haccount).symm
  simp only [transfer, beforeTokenTransfer, restrictMultisig, requireValidRecipient, if_neg hmultisig, if_pos hne,
    require_bind, bind_assoc, pure_bind, htransfer, ok_bind]
  exact ⟨_, hne, hdst, hself, ⟨hissuance _, hissuance _⟩, rfl⟩

theorem withdrawSHADY_iff (hlockup : s.lockups lockup = some contract) : withdrawSHADY s env lockup = .ok s' ↔
    env.sender = contract.beneficiary ∧ contract.unlockTime ≤ env.timestamp ∧ ∃ token,
      transfer cfg (isRegisteredLockup s) env.timestamp s.token lockup contract.beneficiary (s.token.erc20.balanceOf lockup) =
        .ok token ∧ s' = { s with token } := by
  simp only [withdrawSHADY, hlockup, require_bind, ge_iff_le]
  simp only [bind_ok, pure_ok, eq_comm (a := s')]

/-- until it is opened nothing leaves a lockup contract -/
theorem exec_locked (hinv : Inv cfg s) (hlockup : s.lockups lockup = some contract) (hopens : ¬ tx.Opens lockup contract)
    (h : exec s tx = .ok s') : s.token.erc20.balanceOf lockup ≤ s'.token.erc20.balanceOf lockup := by
  have hrole := (hinv.lockups lockup contract hlockup).1
  obtain ⟨env, call⟩ := tx
  cases call with
  | token call =>
    obtain ⟨token, htoken, h⟩ := bind_ok.1 h
    obtain rfl := pure_ok.1 h
    rcases (tokenExec_ok hinv.unapproved htoken).2 with hsame | ⟨src, dst, amount, hsrc, hpaid⟩
    · rw [hsame]
    · exact hpaid.other (ne_of_role (by rw [hrole, hsrc]; decide))
  | deployLockupContract l _ beneficiary unlockTime =>
    obtain ⟨-, rfl⟩ := deployLockupContract_ok h
    exact le_rfl
  | withdrawSHADY l =>
    by_cases hl : l = lockup
    · subst hl
      obtain ⟨hsender, htime, -⟩ := (withdrawSHADY_iff hlockup).1 h
      exact absurd ⟨rfl, hsender, htime⟩ hopens
    · rcases withdrawSHADY_ok h with rfl | ⟨_, token, -, -, htransfer, rfl⟩
      · exact le_rfl
      · exact transfer_other htransfer (Ne.symm hl)
  | issueSHADY p =>
    obtain ⟨⟨s₁, issuance⟩, hissue, h⟩ := bind_ok.1 h
    obtain rfl := pure_ok.1 h
    obtain ⟨-, rfl⟩ := issueSHADY_ok hissue
    exact le_rfl
  | sendSHADY p account amount =>
    obtain ⟨-, token, htransfer, rfl⟩ := sendSHADY_ok h
    exact transfer_other htransfer (ne_of_role (by rw [hrole, cfg.role_issuance]; exact Role.noConfusion))

theorem reached_inv (hs : deploy cfg = .ok s) (txs : List (Tx cfg)) : Inv cfg (run exec s txs) :=
  run_inv exec (P := fun _ _ => True) (fun _ _ _ hinv _ h => (exec_balances hinv h).1) s txs (deploy_ok hs).1
    (along_true _ _ _)

/-- after the constructors nobody has used a permit or approved anybody -/
theorem deploy_token (hs : deploy cfg = .ok s) :
    s.token.nonces = (fun _ => 0) ∧ s.token.erc20.allowance = fun _ _ => 0 := by
  obtain ⟨erc20, halloc, h⟩ := bind_ok.1 hs
  obtain rfl := pure_ok.1 h
  obtain ⟨t₁, h1, halloc⟩ := bind_ok.1 halloc
  obtain ⟨t₂, h2, halloc⟩ := bind_ok.1 halloc
  obtain ⟨t₃, h3, h4⟩ := bind_ok.1 halloc
  refine ⟨rfl, ?_⟩
  rw [(mint_ok h4).1, (mint_ok h3).1, (mint_ok h2).1, (mint_ok h1).1]
  rfl

/-- **A lockup contract holds.** From any reachable state on, whatever is called: the beneficiary and the unlock time of a
deployed lockup contract stay, and as long as its beneficiary does not withdraw at the unlock time or later, its balance does
not fall. -/
theorem lockup_holds (hs : deploy cfg = .ok s) (txs later : List (Tx cfg)) (lockup : Address) (contract : LockupContract)
    (hlockup : (run exec s txs).lockups lockup = some contract) :
    (run exec s (txs ++ later)).lockups lockup = some contract ∧
      ((∀ tx ∈ later, ¬ tx.Opens lockup contract) →
        (run exec s txs).token.erc20.balanceOf lockup ≤ (run exec s (txs ++ later)).token.erc20.balanceOf lockup) := by
  induction later using List.reverseRecOn with
  | nil => exact ⟨by rwa [List.append_nil], fun _ => by rw [List.append_nil]⟩
  | append_singleton later tx ih =>
    obtain ⟨hlockup', hbalance⟩ := ih
    rw [← List.append_assoc, run_snoc]
    cases h : exec (run exec s (txs ++ later)) tx with
    | error e => exact ⟨hlockup', fun hclosed => hbalance fun tx htx => hclosed tx (List.mem_append_left _ htx)⟩
    | ok s' =>
      refine ⟨exec_lockups hlockup' h, fun hclosed => ?_⟩
      exact (hbalance fun tx htx => hclosed tx (List.mem_append_left _ htx)).trans
        (exec_locked (reached_inv hs _) hlockup' (hclosed tx (by simp)) h)

def fromAccount (timestamp : ℕ) (sender : Address) (hne : sender ≠ 0) (hrole : exampleConfig.role sender = .account)
    (call : Call exampleConfig) : Tx exampleConfig := ⟨⟨timestamp, sender, hne, hrole⟩, call⟩

theorem six_ne_zero : (6 : Address) ≠ 0 := by decide
theorem role_five : exampleConfig.role 5 = .account := by decide
theorem role_six : exampleConfig.role 6 = .account := by decide
theorem role_twenty : exampleConfig.role 20 = .lockup := by decide

/-- account 5 locks 10 million for account 6 until the second year -/
def locked : List (Tx exampleConfig) :=
  [fromAccount 2000 5 Address.five_ne_zero role_five (.deployLockupContract 20 role_twenty 6 31537000),
    fromAccount 2000 5 Address.five_ne_zero role_five (.token (.transfer 20 (10 ^ 25)))]

/-- account 6 withdraws too early, account 5 at the right time -/
def withdrawals : List (Tx exampleConfig) :=
  [fromAccount 31536999 6 six_ne_zero role_six (.withdrawSHADY 20),
    fromAccount 31537000 5 Address.five_ne_zero role_five (.withdrawSHADY 20)]

theorem lockup_holds_locked : ∃ s, deploy exampleConfig = .ok s ∧
    (run exec s locked).token.erc20.balanceOf 20 ≤ (run exec s (locked ++ withdrawals)).token.erc20.balanceOf 20 := by
  obtain ⟨s, hs⟩ : ∃ s, deploy exampleConfig = .ok s := Res.failure_none (by decide +kernel)
  have hlockup : (deploy exampleConfig).map (fun s => (run exec s locked).lockups 20) = .ok (some ⟨6, 31537000⟩) := by
    decide +kernel
  rw [hs] at hlockup
  exact ⟨s, hs, (lockup_holds hs locked withdrawals 20 ⟨6, 31537000⟩ (Except.ok.inj hlockup)).2 (by decide)⟩

/-- **A lockup contract opens.** In every reachable state `withdrawSHADY` of a deployed lockup contract succeeds exactly for
its beneficiary at the unlock time or later; the whole balance then goes to the beneficiary, and nothing else changes. The one
account that could not be paid is the token contract. -/
theorem lockup_opens (hs : deploy cfg = .ok s) (txs : List (Tx cfg)) (lockup : Address) (contract : LockupContract)
    (hlockup : (run exec s txs).lockups lockup = some contract) (hne : lockup ≠ 0) (env : Env cfg) :
    ((∃ s', exec (run exec s txs) ⟨env, .withdrawSHADY lockup⟩ = .ok s') ↔
      env.sender = contract.beneficiary ∧ contract.unlockTime ≤ env.timestamp ∧ contract.beneficiary ≠ cfg.self) ∧
    ∀ s', exec (run exec s txs) ⟨env, .withdrawSHADY lockup⟩ = .ok s' →
      s'.token.erc20.balanceOf lockup = 0 ∧
      s'.token.erc20.balanceOf contract.beneficiary = (run exec s txs).token.erc20.balanceOf contract.beneficiary +
        (run exec s txs).token.erc20.balanceOf lockup ∧
      (∀ a, a ≠ lockup → a ≠ contract.beneficiary →
        s'.token.erc20.balanceOf a = (run exec s txs).token.erc20.balanceOf a) ∧
      s'.lockups = (run exec s txs).lockups ∧ s'.token.nonces = (run exec s txs).token.nonces := by
  have hinv := reached_inv hs txs
  generalize run exec s txs = s at *
  have hrole := (hinv.lockups lockup contract hlockup).1
  change ((∃ s', withdrawSHADY s env lockup = .ok s') ↔ _) ∧ ∀ s', withdrawSHADY s env lockup = .ok s' → _
  constructor
  · constructor
    · rintro ⟨s', h⟩
      obtain ⟨hsender, htime, token, htransfer, -⟩ := (withdrawSHADY_iff hlockup).1 h
      exact ⟨hsender, htime, transfer_recipient htransfer⟩
    · rintro ⟨hsender, htime, hself⟩
      obtain ⟨token, htransfer⟩ := transfer_lockup (isRegisteredLockup s) env.timestamp hrole hne (hsender ▸ env.sender_ne)
        hself (hsender ▸ env.role_sender) le_rfl
      exact ⟨_, (withdrawSHADY_iff hlockup).2 ⟨hsender, htime, token, htransfer, rfl⟩⟩
  · intro s' h
    obtain ⟨hsender, -, token, htransfer, rfl⟩ := (withdrawSHADY_iff hlockup).1 h
    have hbal := (transfer_paid htransfer).2.balance
    have hbeneficiary : lockup ≠ contract.beneficiary := ne_of_role (by
      rw [hrole, ← hsender, env.role_sender]
      exact Role.noConfusion)
    refine ⟨?_, ?_, fun a ha hb => ?_, rfl, (transfer_erc20 htransfer).2⟩
    · have h1 := hbal lockup
      rw [if_pos rfl, if_neg hbeneficiary] at h1
      show token.erc20.balanceOf lockup = 0
      omega
    · have h1 := hbal contract.beneficiary
      rwa [if_neg hbeneficiary.symm, if_pos rfl] at h1
    · have h1 := hbal a
      rwa [if_neg ha, if_neg hb] at h1

theorem lockup_opens_locked : ∃ s, deploy exampleConfig = .ok s ∧
    ∃ s', exec (run exec s locked) (fromAccount 31537000 6 six_ne_zero role_six (.withdrawSHADY 20)) = .ok s' ∧
      s'.token.erc20.balanceOf 20 = 0 := by
  obtain ⟨s, hs⟩ : ∃ s, deploy exampleConfig = .ok s := Res.failure_none (by decide +kernel)
  have hlockup : (deploy exampleConfig).map (fun s => (run exec s locked).lockups 20) = .ok (some ⟨6, 31537000⟩) := by
    decide +kernel
  rw [hs] at hlockup
  obtain ⟨hopens, hpaid⟩ := lockup_opens hs locked 20 ⟨6, 31537000⟩ (Except.ok.inj hlockup) (by decide)
    (fromAccount 31537000 6 six_ne_zero role_six (.withdrawSHADY 20)).env
  obtain ⟨s', hs'⟩ := hopens.2 (by decide)
  exact ⟨s, hs, s', hs', (hpaid s' hs').1⟩

/-! ## Holders -/

/-- the holder sends the call or signed the permit in it -/
def Acts (a : Address) (s : State) (tx : Tx cfg) : Prop :=
  tx.env.sender = a ∨ match tx.call with
    | .token (.permit owner spender value deadline signature) =>
      owner = a ∧ cfg.recover ⟨owner, spender, value, s.token.nonces owner, deadline⟩ signature = .ok a
    | _ => False

/-- a call of the token by somebody else, without a signature of the holder -/
theorem tokenExec_spent {registered : Address → Bool} {t t' : SHADYToken} {call : TokenCall} (hsender : env.sender ≠ a)
    (hsigned : ∀ spender value deadline signature, call = .permit a spender value deadline signature →
      cfg.recover ⟨a, spender, value, t.nonces a, deadline⟩ signature ≠ .ok a)
    (hfinite : ∀ x, t.erc20.allowance a x < uintMax) (h : tokenExec cfg registered env t call = .ok t') :
    ERC20.Spent a t.erc20 t'.erc20 := by
  cases call with
  | transfer dst amount => exact .of_transfer (transfer_erc20 h).1 hsender.symm
  | transferFrom src dst amount =>
    obtain ⟨erc20, hspend, htransfer⟩ := bind_ok.1 h
    exact .of_spend hspend (transfer_erc20 htransfer).1 hfinite
  | approve spender amount =>
    obtain ⟨-, -, h⟩ := bind_ok.1 h
    obtain ⟨erc20, happrove, h⟩ := bind_ok.1 h
    obtain rfl := pure_ok.1 h
    exact .of_approve happrove hsender.symm
  | increaseAllowance spender addedValue =>
    obtain ⟨-, -, h⟩ := bind_ok.1 h
    obtain ⟨-, h⟩ := uadd_bind.1 h
    obtain ⟨erc20, happrove, h⟩ := bind_ok.1 h
    obtain rfl := pure_ok.1 h
    exact .of_approve happrove hsender.symm
  | decreaseAllowance spender subtractedValue =>
    obtain ⟨-, -, h⟩ := bind_ok.1 h
    obtain ⟨-, h⟩ := require_bind.1 h
    obtain ⟨erc20, happrove, h⟩ := bind_ok.1 h
    obtain rfl := pure_ok.1 h
    exact .of_approve happrove hsender.symm
  | permit owner spender value deadline signature =>
    obtain ⟨-, h⟩ := require_bind.1 h
    obtain ⟨signer, hsigner, h⟩ := bind_ok.1 h
    obtain ⟨rfl, h⟩ := require_bind.1 h
    obtain ⟨erc20, happrove, h⟩ := bind_ok.1 h
    obtain rfl := pure_ok.1 h
    have hne : a ≠ signer := by
      rintro rfl
      exact hsigned _ _ _ _ rfl hsigner
    exact .of_approve happrove hne

theorem exec_spent (hinv : Inv cfg s) (hrole : cfg.role a = .account) (hidle : ¬ Acts a s tx)
    (hfinite : ∀ x, s.token.erc20.allowance a x < uintMax) (h : exec s tx = .ok s') :
    ERC20.Spent a s.token.erc20 s'.token.erc20 := by
  obtain ⟨env, call⟩ := tx
  obtain ⟨hsender, hsigned⟩ := not_or.1 hidle
  cases call with
  | token call =>
    obtain ⟨token, htoken, h⟩ := bind_ok.1 h
    obtain rfl := pure_ok.1 h
    refine tokenExec_spent hsender (fun spender value deadline signature hcall hrecover => hsigned ?_) hfinite htoken
    subst hcall
    exact ⟨rfl, hrecover⟩
  | deployLockupContract l _ beneficiary unlockTime =>
    obtain ⟨-, rfl⟩ := deployLockupContract_ok h
    exact .refl _ _
  | withdrawSHADY l =>
    rcases withdrawSHADY_ok h with rfl | ⟨contract, token, hl, -, htransfer, rfl⟩
    · exact .refl _ _
    · refine .of_transfer (transfer_erc20 htransfer).1 ?_
      rintro rfl
      rw [(hinv.lockups a contract hl).1] at hrole
      cases hrole
  | issueSHADY p =>
    obtain ⟨⟨s₁, issuance⟩, hissue, h⟩ := bind_ok.1 h
    obtain rfl := pure_ok.1 h
    obtain ⟨-, rfl⟩ := issueSHADY_ok hissue
    exact .refl _ _
  | sendSHADY p account amount =>
    obtain ⟨-, token, htransfer, rfl⟩ := sendSHADY_ok h
    exact .of_transfer (transfer_erc20 htransfer).1 (issuanceAddress_ne_account hrole).symm

/-- **Who does nothing.** From any reachable state on, along any calls of others: a holder that is no contract of the system,
has given no infinite allowance, and neither sends nor signs anything, loses at most what others spend of its allowances. -/
theorem idle_holder_keeps (hs : deploy cfg = .ok s) (txs later : List (Tx cfg)) (a : Address) (hrole : cfg.role a = .account)
    (hfinite : ∀ x, (run exec s txs).token.erc20.allowance a x < uintMax)
    (hidle : AlongOk exec (fun s tx => ¬ Acts a s tx) (run exec s txs) later) :
    let before := (run exec s txs).token.erc20
    let after := (run exec s (txs ++ later)).token.erc20
    before.balanceOf a + ∑ x, after.allowance a x ≤ after.balanceOf a + ∑ x, before.allowance a x := by
  have hrun : run exec s (txs ++ later) = run exec (run exec s txs) later := List.foldl_append ..
  rw [hrun]
  have hinv := reached_inv hs txs
  generalize run exec s txs = s₀ at *
  suffices h : Inv cfg (run exec s₀ later) ∧ ERC20.Spent a s₀.token.erc20 (run exec s₀ later).token.erc20 from h.2.balance
  refine run_inv_ok exec (I := fun s => Inv cfg s ∧ ERC20.Spent a s₀.token.erc20 s.token.erc20)
    (fun s tx s' hI htx h => ?_) s₀ later ⟨hinv, .refl _ _⟩ hidle
  refine ⟨(exec_balances hI.1 h).1, hI.2.trans ?_⟩
  exact exec_spent hI.1 hrole htx (fun x => (hI.2.allowance x).trans_lt (hfinite x)) h

/-- account 5 tries to take tokens of account 4, which has 14 million -/
def takings : List (Tx exampleConfig) := [fromAccount 2000 5 Address.five_ne_zero role_five (.token (.transferFrom 4 5 (10 ^ 18)))]

theorem idle_holder_keeps_takings : ∃ s, deploy exampleConfig = .ok s ∧
    s.token.erc20.balanceOf 4 ≤ (run exec s takings).token.erc20.balanceOf 4 := by
  obtain ⟨s, hs⟩ : ∃ s, deploy exampleConfig = .ok s := Res.failure_none (by decide +kernel)
  have hnone := (deploy_token hs).2
  have hkeeps := idle_holder_keeps hs [] takings 4 (by decide) (fun x => by simp [hnone, uintMax])
    ⟨fun _ hacts => by rcases hacts with hsend | hfalse; exacts [absurd hsend (by decide), hfalse], trivial⟩
  dsimp only [List.nil_append, run_nil] at hkeeps
  rw [hnone] at hkeeps
  simp only [Finset.sum_const_zero] at hkeeps
  exact ⟨s, hs, by omega⟩

/-! ## Permits -/

/-- how many permits of the owner the call gets accepted -/
def accepted (owner : Address) (s : State) (tx : Tx cfg) : ℕ :=
  match tx.call with
  | .token (.permit o _ _ _ _) => if o = owner then Res.shown ((exec s tx).map fun _ => 1) else 0
  | _ => 0

/-- call number `j` gets the permit accepted -/
def AcceptedAt (s : State) (txs : List (Tx cfg)) (j : ℕ) (p : Permit) (signature : Signature) : Prop :=
  ∃ tx, txs[j]? = some tx ∧ tx.call = .token (.permit p.owner p.spender p.value p.deadline signature) ∧
    p.nonce = (run exec s (txs.take j)).token.nonces p.owner ∧ Succeeds (exec (run exec s (txs.take j)) tx)

theorem permit_ok {t t' : SHADYToken} {spender : Address} {value deadline : ℕ} {signature : Signature}
    (h : permit cfg env t owner spender value deadline signature = .ok t') :
    env.timestamp ≤ deadline ∧ cfg.recover ⟨owner, spender, value, t.nonces owner, deadline⟩ signature = .ok owner ∧
      t'.nonces = Function.update t.nonces owner (t.nonces owner + 1) ∧ t'.erc20.allowance owner spender = value := by
  obtain ⟨htime, h⟩ := require_bind.1 h
  obtain ⟨signer, hsigner, h⟩ := bind_ok.1 h
  obtain ⟨rfl, h⟩ := require_bind.1 h
  obtain ⟨erc20, happrove, h⟩ := bind_ok.1 h
  obtain rfl := pure_ok.1 h
  exact ⟨htime, hsigner, rfl, by simp [(ERC20.approve_ok happrove).2.2]⟩

theorem tokenExec_nonces {registered : Address → Bool} {t t' : SHADYToken} {call : TokenCall}
    (hcall : ∀ o spender value deadline signature, call ≠ .permit o spender value deadline signature)
    (h : tokenExec cfg registered env t call = .ok t') : t'.nonces = t.nonces := by
  cases call with
  | transfer dst amount => exact (transfer_erc20 h).2
  | transferFrom src dst amount =>
    obtain ⟨erc20, -, htransfer⟩ := bind_ok.1 h
    exact (transfer_erc20 htransfer).2
  | approve spender amount =>
    obtain ⟨-, -, h⟩ := bind_ok.1 h
    obtain ⟨erc20, -, h⟩ := bind_ok.1 h
    rw [← pure_ok.1 h]
  | increaseAllowance spender addedValue =>
    obtain ⟨-, -, h⟩ := bind_ok.1 h
    obtain ⟨-, h⟩ := uadd_bind.1 h
    obtain ⟨erc20, -, h⟩ := bind_ok.1 h
    rw [← pure_ok.1 h]
  | decreaseAllowance spender subtractedValue =>
    obtain ⟨-, -, h⟩ := bind_ok.1 h
    obtain ⟨-, h⟩ := require_bind.1 h
    obtain ⟨erc20, -, h⟩ := bind_ok.1 h
    rw [← pure_ok.1 h]
  | permit o spender value deadline signature => exact absurd rfl (hcall o spender value deadline signature)

/-- a nonce counts the accepted permits -/
theorem exec_nonces (owner : Address) (h : exec s tx = .ok s') :
    s'.token.nonces owner = s.token.nonces owner + accepted owner s tx := by
  obtain ⟨env, call⟩ := tx
  cases call with
  | token call =>
    cases call with
    | permit o spender value deadline signature =>
      simp only [accepted, h]
      obtain ⟨token, htoken, h⟩ := bind_ok.1 h
      obtain rfl := pure_ok.1 h
      obtain ⟨-, -, hnonces, -⟩ := permit_ok htoken
      dsimp only
      rw [hnonces]
      by_cases ho : o = owner
      · subst ho
        simp [Except.map, Res.shown]
      · rw [Function.update_of_ne (Ne.symm ho), if_neg ho, Nat.add_zero]
    | _ =>
      obtain ⟨token, htoken, h⟩ := bind_ok.1 h
      obtain rfl := pure_ok.1 h
      exact congrFun (tokenExec_nonces (fun _ _ _ _ _ hc => by cases hc) htoken) owner
  | deployLockupContract l _ beneficiary unlockTime =>
    obtain ⟨-, rfl⟩ := deployLockupContract_ok h
    rfl
  | withdrawSHADY l =>
    rcases withdrawSHADY_ok h with rfl | ⟨_, token, -, -, htransfer, rfl⟩
    · rfl
    · exact congrFun (transfer_erc20 htransfer).2 owner
  | issueSHADY p =>
    obtain ⟨⟨s₁, issuance⟩, hissue, h⟩ := bind_ok.1 h
    obtain rfl := pure_ok.1 h
    obtain ⟨-, rfl⟩ := issueSHADY_ok hissue
    rfl
  | sendSHADY p account amount =>
    obtain ⟨-, token, htransfer, rfl⟩ := sendSHADY_ok h
    exact congrFun (transfer_erc20 htransfer).2 owner

theorem run_nonces (owner : Address) (s : State) (txs : List (Tx cfg)) :
    (run exec s txs).token.nonces owner = s.token.nonces owner + total exec (accepted owner) s txs := by
  induction txs using List.reverseRecOn with
  | nil => rfl
  | append_singleton txs tx ih =>
    rw [run_snoc, total_snoc, ← Nat.add_assoc, ← ih]
    cases h : exec (run exec s txs) tx with
    | ok s' => exact exec_nonces owner h
    | error e =>
      have hnone : accepted owner (run exec s txs) tx = 0 := by
        unfold accepted
        rw [h]
        split <;> simp [Except.map, Res.shown]
      rw [hnone, Nat.add_zero]
      rfl

theorem nonces_mono (s : State) (txs : List (Tx cfg)) (owner : Address) {i j : ℕ} (hij : i ≤ j) :
    (run exec s (txs.take i)).token.nonces owner ≤ (run exec s (txs.take j)).token.nonces owner := by
  have hsplit := List.take_append_drop i (txs.take j)
  rw [List.take_take, Nat.min_eq_left hij] at hsplit
  have hrun : run exec s (txs.take j) = run exec (run exec s (txs.take i)) ((txs.take j).drop i) := by
    conv_lhs => rw [← hsplit]
    exact List.foldl_append ..
  rw [hrun, run_nonces owner (run exec s (txs.take i))]
  exact Nat.le_add_right _ _

theorem AcceptedAt.ok {txs : List (Tx cfg)} {j : ℕ} {p : Permit} {signature : Signature}
    (h : AcceptedAt s txs j p signature) : cfg.recover p signature = .ok p.owner ∧
      (run exec s (txs.take (j + 1))).token.erc20.allowance p.owner p.spender = p.value ∧
      (run exec s (txs.take (j + 1))).token.nonces p.owner = p.nonce + 1 := by
  obtain ⟨tx, htx, hcall, hnonce, s', hs'⟩ := h
  have hlast : run exec s (txs.take (j + 1)) = s' := by
    rw [List.take_add_one, htx, Option.toList_some, run_snoc, hs']
    rfl
  rw [hlast]
  obtain ⟨env, call⟩ := tx
  obtain rfl : call = _ := hcall
  obtain ⟨token, htoken, h⟩ := bind_ok.1 hs'
  obtain rfl := pure_ok.1 h
  obtain ⟨-, hrecover, hnonces, hvalue⟩ := permit_ok htoken
  rw [← hnonce] at hrecover hnonces
  exact ⟨hrecover, hvalue, by rw [hnonces, Function.update_self]⟩

/-- **Permits.** After any run the nonce of an owner is the number of its accepted permits. A permit that a call gets accepted
carries the number of those accepted before and is signed by its owner, and the call sets the allowance it names; no permit is
accepted twice, whatever its signature. -/
theorem permits_in_order (hs : deploy cfg = .ok s) (txs : List (Tx cfg)) :
    (∀ owner, (run exec s txs).token.nonces owner = total exec (accepted owner) s txs) ∧
    (∀ j p signature, AcceptedAt s txs j p signature →
      p.nonce = total exec (accepted p.owner) s (txs.take j) ∧ cfg.recover p signature = .ok p.owner ∧
        (run exec s (txs.take (j + 1))).token.erc20.allowance p.owner p.spender = p.value) ∧
    ∀ i j p signature signature', AcceptedAt s txs i p signature → AcceptedAt s txs j p signature' → i = j := by
  have hcount : ∀ owner (calls : List (Tx cfg)),
      (run exec s calls).token.nonces owner = total exec (accepted owner) s calls := by
    intro owner calls
    rw [run_nonces, (deploy_token hs).1, Nat.zero_add]
  have honce : ∀ i j p signature signature', i < j → AcceptedAt s txs i p signature → AcceptedAt s txs j p signature' →
      False := by
    intro i j p signature signature' hij hi hj
    obtain ⟨-, -, hnext⟩ := hi.ok
    obtain ⟨_, -, -, hnonce, -⟩ := hj
    have hlater := nonces_mono s txs p.owner (show i + 1 ≤ j from hij)
    omega
  refine ⟨fun owner => hcount owner txs, fun j p signature h => ?_, fun i j p signature signature' hi hj => ?_⟩
  · obtain ⟨hrecover, hvalue, -⟩ := h.ok
    obtain ⟨_, -, -, hnonce, -⟩ := h
    exact ⟨hnonce.trans (hcount _ _), hrecover, hvalue⟩
  · rcases Nat.lt_trichotomy i j with hlt | heq | hgt
    · exact (honce i j p signature signature' hlt hi hj).elim
    · exact heq
    · exact (honce j i p signature' signature hgt hj hi).elim

/-- account 6 signs one permit, for account 7 and 10 tokens -/
def permitConfig : Config :=
  { exampleConfig with
    recover := fun p signature =>
      if p.owner = 6 ∧ p.spender = 7 ∧ p.value = 10 ∧ p.nonce = 0 ∧ p.deadline = 3000 ∧ signature.v = 27 then .ok 6
      else .error (.error "ECDSA: invalid signature")
    role_recover := by
      intro p signature a h
      split_ifs at h
      cases h
      decide }

theorem seven_ne_zero : (7 : Address) ≠ 0 := by decide
theorem role_seven : permitConfig.role 7 = .account := by decide

def usePermit : Tx permitConfig := ⟨⟨2000, 7, seven_ne_zero, role_seven⟩, .token (.permit 6 7 10 3000 ⟨27, 0, 0⟩)⟩

theorem permits_in_order_usedTwice : ∃ s, deploy permitConfig = .ok s ∧
    ∀ j, AcceptedAt s [usePermit, usePermit] j ⟨6, 7, 10, 0, 3000⟩ ⟨27, 0, 0⟩ → j = 0 := by
  obtain ⟨s, hs⟩ : ∃ s, deploy permitConfig = .ok s := Res.failure_none (by decide +kernel)
  have hfirst : AcceptedAt s [usePermit, usePermit] 0 ⟨6, 7, 10, 0, 3000⟩ ⟨27, 0, 0⟩ := by
    refine ⟨usePermit, rfl, rfl, ?_, ?_⟩
    · exact (congrFun (deploy_token hs).1 6).symm
    · obtain ⟨s', hs'⟩ : ∃ s', (deploy permitConfig >>= fun s => exec s usePermit) = .ok s' :=
        Res.failure_none (by decide +kernel)
      rw [hs] at hs'
      exact ⟨s', hs'⟩
  exact ⟨s, hs, fun j hj => (permits_in_order hs _).2.2 j 0 _ _ _ hj hfirst⟩

end SimContracts.Shady
