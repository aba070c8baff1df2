/-
The lock of the team's tokens in the first year. Tokens leave the multisig for registered lockup contracts only, whoever
moves them and by whatever right: a call of its own, an allowance or a permit. They stay there, since a lockup contract
opens a year after the token was deployed at the earliest, and gives nobody an allowance.

Results:
  first_year_lock   what the multisig and the registered lockup contracts have together does not fall below 26 million
-/
import SimContracts.Shady.System

namespace SimContracts.Shady

open Solidity

variable {cfg : Config} {s s' : State} {tx : Tx cfg}

/-- what the multisig and all registered lockup contracts have -/
noncomputable def teamBalance (cfg : Config) (s : State) : ℕ :=
  s.token.erc20.balanceOf cfg.multisigAddress + ∑ a with isRegisteredLockup s a, s.token.erc20.balanceOf a

/-- the multisig and the registered lockup contracts -/
noncomputable def team (cfg : Config) (s : State) : Finset Address :=
  insert cfg.multisigAddress (Finset.univ.filter fun a => isRegisteredLockup s a)

theorem mem_team {a : Address} : a ∈ team cfg s ↔ a = cfg.multisigAddress ∨ isRegisteredLockup s a := by
  simp [team]

theorem teamBalance_eq (hinv : Inv cfg s) : teamBalance cfg s = ∑ a ∈ team cfg s, s.token.erc20.balanceOf a := by
  rw [team, Finset.sum_insert]
  · rfl
  · intro h
    have hrole := hinv.registered _ (Finset.mem_filter.1 h).2
    rw [cfg.role_multisig] at hrole
    exact nomatch hrole

/-- a payment in the first year that takes from the team gives to it -/
theorem Payment.team {b' : Address → ℕ} (hinv : Inv cfg s) (h : Payment s tx b')
    (hyear : tx.env.timestamp < cfg.deploymentStartTime + ONE_YEAR_IN_SECONDS) :
    ∑ a ∈ team cfg s, s.token.erc20.balanceOf a ≤ ∑ a ∈ team cfg s, b' a := by
  -- enough: the recipient is in the team if the payer is
  have hpaid : ∀ {src dst amount}, Paid cfg (isRegisteredLockup s) tx.env.timestamp s.token.erc20.balanceOf b' src dst
      amount → (src ∈ Shady.team cfg s → dst ∈ Shady.team cfg s) →
      ∑ a ∈ Shady.team cfg s, s.token.erc20.balanceOf a ≤ ∑ a ∈ Shady.team cfg s, b' a := by
    intro src dst amount hpaid hteam
    have hsum := Ledger.sum_transfer hpaid.balance (Shady.team cfg s)
    by_cases hsrc : src ∈ Shady.team cfg s
    · rw [if_pos hsrc, if_pos (hteam hsrc)] at hsum
      omega
    · rw [if_neg hsrc] at hsum
      omega
  cases h with
  | moved h =>
    rcases h with rfl | ⟨src, dst, amount, hrole, h⟩
    · exact le_rfl
    · refine hpaid h fun hsrc => ?_
      rcases mem_team.1 hsrc with hmultisig | hregistered
      · exact mem_team.2 (.inr (h.firstYear hmultisig hyear))
      · have hlockup := hinv.registered src hregistered
        rw [hrole] at hlockup
        exact nomatch hlockup
  | withdrawn lockup contract amount hlockup hopen h =>
    -- no lockup contract is open yet
    have hunlock := (hinv.lockups lockup contract hlockup).2
    unfold SECONDS_IN_ONE_YEAR at hunlock
    unfold ONE_YEAR_IN_SECONDS at hyear
    omega
  | sent p account amount _ _ h =>
    refine hpaid h fun hsrc => ?_
    rcases mem_team.1 hsrc with hmultisig | hregistered
    · exact absurd hmultisig (issuanceAddress_ne_account cfg.role_multisig)
    · have hlockup := hinv.registered _ hregistered
      rw [cfg.role_issuance] at hlockup
      exact nomatch hlockup

theorem exec_teamBalance (hinv : Inv cfg s) (h : exec s tx = .ok s')
    (hyear : tx.env.timestamp < cfg.deploymentStartTime + ONE_YEAR_IN_SECONDS) :
    teamBalance cfg s ≤ teamBalance cfg s' := by
  obtain ⟨hinv', hpayment⟩ := exec_balances hinv h
  have hgrows : team cfg s ⊆ team cfg s' := by
    intro a ha
    exact mem_team.2 ((mem_team.1 ha).imp_right (exec_registered h))
  rw [teamBalance_eq hinv, teamBalance_eq hinv']
  exact (hpayment.team hinv hyear).trans (Finset.sum_le_sum_of_subset hgrows)

/-! ## Main result -/

/-- **The first year.** Whatever calls are made within a year of the deployment, in any order and by anybody, the
multisig and the lockup contracts registered in the factory keep the multisig's 26 million. -/
theorem first_year_lock (hs : deploy cfg = .ok s) (txs : List (Tx cfg))
    (hyear : ∀ tx ∈ txs, tx.env.timestamp < cfg.deploymentStartTime + ONE_YEAR_IN_SECONDS) :
    26 * 10 ^ 24 ≤ teamBalance cfg (run exec s txs) := by
  obtain ⟨hinv, -, hmultisig, -⟩ := deploy_ok hs
  suffices h : Inv cfg (run exec s txs) ∧ 26 * 10 ^ 24 ≤ teamBalance cfg (run exec s txs) from h.2
  induction txs using List.reverseRecOn with
  | nil => exact ⟨hinv, hmultisig.trans (Nat.le_add_right _ _)⟩
  | append_singleton txs tx ih =>
    obtain ⟨hinv, hteam⟩ := ih fun tx' htx => hyear tx' (List.mem_append_left _ htx)
    rw [run_snoc]
    cases h : exec (run exec s txs) tx with
    | error e => exact ⟨hinv, hteam⟩
    | ok s' =>
      have hlater := exec_teamBalance hinv h (hyear tx (by simp))
      exact ⟨(exec_balances hinv h).1, hteam.trans hlater⟩

theorem multisig_sends : exampleConfig.multisigAddress ≠ 0 ∧ exampleConfig.role exampleConfig.multisigAddress = .account := by
  decide

def fromMultisig (call : Call exampleConfig) : Tx exampleConfig := ⟨⟨2000, 5, multisig_sends.1, multisig_sends.2⟩, call⟩

/-- the multisig locks 10 million for account 6, and tries to pay account 6 at once -/
def lockTenMillion : List (Tx exampleConfig) :=
  [fromMultisig (.deployLockupContract 20 (by decide) 6 31537000), fromMultisig (.token (.transfer 20 (10 ^ 25))),
    fromMultisig (.token (.transfer 6 (10 ^ 25)))]

theorem first_year_lock_lockTenMillion :
    ∃ s, deploy exampleConfig = .ok s ∧ 26 * 10 ^ 24 ≤ teamBalance exampleConfig (run exec s lockTenMillion) := by
  obtain ⟨s, hs⟩ : ∃ s, deploy exampleConfig = .ok s := Res.failure_none (by decide +kernel)
  exact ⟨s, hs, first_year_lock hs lockTenMillion (by decide)⟩

example : (deploy exampleConfig).map (fun s =>
    ((run exec s lockTenMillion).token.erc20.balanceOf 20, (run exec s lockTenMillion).token.erc20.balanceOf 6)) =
    .ok (10 ^ 25, 0) := by
  decide +kernel

end SimContracts.Shady
