/-
What depositors of the Stability Pool can take out of the protocol. The pool's trackers are the tokens it holds
(`Balanced`), and its state is that of a run of its own model (`reached_pool`); so in a run whose liquidations all charge
their debt in full, the deposits and gains shown are covered by the SIM and the collateral at the pool's address, and a
withdrawal that meets its requirements goes through.

Results:
  depositors_covered    the deposits shown are within the pool's SIM, the gains shown within its collateral
  withdrawal_succeeds   `withdrawFromSP` pays the deposit and the gain that are shown
-/
import SimContracts.Protocol.Offsets
import SimContracts.StabilityPool.Isolation

namespace SimContracts.StabilityPool

open Solidity

variable {s s' s₁ : Pool} {a : Address}

/-! ## What a deposit reads -/

/-- a deposit never reads more than it was -/
structure Within (s : Pool) : Prop where
  wf : Wf s
  reading_le : ∀ a, reading s a ≤ s.deposits a

theorem init_within : Within init := ⟨init_wf, fun _ => by simp [reading, init, scaled, cutOff]⟩

/-- a fresh deposit reads itself -/
theorem DepositorStep.reading_self {c d w : ℕ} (h : DepositorStep s s' a c d w) (hs : Wf s) : reading s' a = d := by
  have hpos : 0 < s'.P := h.product.1 ▸ hs.product_pos
  simp only [reading, h.deposits, h.snapshots, Function.update_self, snapshotFor]
  by_cases hd : d = 0
  · simp [hd, scaled, cutOff]
  · simp only [if_neg hd, lt_irrefl, if_false, Nat.sub_self, scaled, if_true, Nat.mul_div_cancel _ hpos, cutOff]
    rw [if_neg (Nat.div_le_self _ _).not_gt]

theorem exec_within {call : Call} (h : exec s call = .ok s') (hs : Within s) : Within s' := by
  refine ⟨exec_wf h hs.wf, fun a => ?_⟩
  by_cases hcall : call.sender = some a
  · obtain ⟨c, d, w, issued, shady, hstep, -⟩ := exec_depositor hcall h
    rw [hstep.reading_self hs.wf, hstep.deposits, Function.update_self]
  · have hother := exec_undisturbed hcall h hs.wf
    rw [hother.deposit]
    exact hother.reading_le.trans (hs.reading_le a)

theorem run_within (calls : List Call) : Within (run exec init calls) :=
  run_inv exec (P := fun _ _ => True) (fun _ _ _ hs _ h => exec_within h hs) init calls init_within (along_true exec _ calls)

/-- where nothing is issued there is nothing to book -/
theorem triggerSHADYIssuance_zero (s : Pool) : triggerSHADYIssuance s 0 = .ok s := if_pos (.inr rfl)

/-- an issuance changes no reading -/
theorem triggerSHADYIssuance_reading {issued : ℕ} (h : triggerSHADYIssuance s issued = .ok s₁) (a : Address) :
    reading s₁ a = reading s a := by
  obtain ⟨e, G, rfl⟩ := triggerSHADYIssuance_ok h
  rfl

/-! ## A withdrawal -/

/-- a withdrawal whose requirements are met, of a deposit and a gain that the pool has -/
theorem withdrawFromSP_succeeds {amount issued lowestICR deposit wsteth shady : ℕ} (hICR : amount = 0 ∨ MCR ≤ lowestICR)
    (hdeposit : 0 < s.deposits a) (hissued : triggerSHADYIssuance s issued = .ok s₁)
    (hshows : Shows s₁ a deposit wsteth shady) (hwithin : deposit ≤ s.deposits a) (htotal : deposit ≤ s.totalSIMDeposits)
    (hcoll : wsteth ≤ s.WSTETH) :
    ∃ s', withdrawFromSP s a amount issued lowestICR = .ok (s', ⟨shady, wsteth, min amount deposit⟩) := by
  obtain ⟨hd, hw, hg⟩ := hshows
  obtain ⟨e, G, rfl⟩ := triggerSHADYIssuance_ok hissued
  have hmin : min amount deposit ≤ deposit := min_le_right _ _
  have hSIM : ∃ s₂ : Pool, sendSIMToDepositor { s with lastSHADYError := e, epochToScaleToG := G } (min amount deposit) = .ok s₂ ∧
      s₂.WSTETH = s.WSTETH := by
    unfold sendSIMToDepositor decreaseSIM
    split_ifs
    · exact ⟨_, rfl, rfl⟩
    · refine ⟨_, usub_bind.2 ⟨hmin.trans htotal, rfl⟩, rfl⟩
  obtain ⟨s₂, hs₂, hWSTETH⟩ := hSIM
  have hgain : ∃ s₃, sendWSTETHGainToDepositor (updateDepositAndSnapshots s₂ a (deposit - min amount deposit)) wsteth =
      .ok s₃ := by
    unfold sendWSTETHGainToDepositor
    split_ifs
    · exact ⟨_, rfl⟩
    · exact ⟨_, usub_bind.2 ⟨hcoll.trans_eq hWSTETH.symm, rfl⟩⟩
  obtain ⟨s₃, hs₃⟩ := hgain
  refine ⟨s₃, ?_⟩
  simp only [withdrawFromSP, requireUserHasDeposit, require_bind, hissued, ok_bind, hw, hd, usub_bind, hg, hs₂, hs₃]
  exact ⟨hICR, hdeposit, hwithin, hmin, rfl⟩

end SimContracts.StabilityPool

namespace SimContracts.Protocol

open Solidity TroveManager

variable {c : Config} {s s' : System}

/-- the transaction offsets nothing, or charges in full what it offsets -/
def OffsetsInFull (c : Config) (s : System) (tx : Tx c) : Prop :=
  SimContracts.StabilityPool.ChargesInFull s.stabilityPool (.offset (debtOffset c s tx) 0 0)

instance (c : Config) (s : System) (tx : Tx c) : Decidable (OffsetsInFull c s tx) :=
  inferInstanceAs (Decidable (SimContracts.StabilityPool.ChargesInFull _ _))

/-- the pool of a reachable state as one of its own model -/
theorem reached_within (calls : List (Tx c)) : SimContracts.StabilityPool.Within (reached c calls).stabilityPool := by
  obtain ⟨poolCalls, hpool, -⟩ := reached_pool (P := fun _ _ => True) (Q := fun _ _ => True) (fun _ _ _ => trivial)
    (fun _ _ _ _ _ => trivial) calls (along_true (exec c) _ calls).ok
  rw [hpool]
  exact SimContracts.StabilityPool.run_within poolCalls

theorem reached_gainsBacked (calls : List (Tx c)) (hfull : AlongOk (exec c) (OffsetsInFull c) (init c) calls) :
    SimContracts.StabilityPool.GainsBacked (reached c calls).stabilityPool := by
  have hother : ∀ s call, (∀ debt coll issued, call ≠ .offset debt coll issued) →
      SimContracts.StabilityPool.ChargesInFull s call := by
    intro s call hne
    cases call with
    | offset debt coll issued => exact absurd rfl (hne debt coll issued)
    | _ => trivial
  obtain ⟨poolCalls, hpool, hinFull⟩ := reached_pool hother (fun _ _ _ _ h => h) calls hfull
  rw [hpool]
  exact SimContracts.StabilityPool.run_gainsBacked poolCalls hinFull.ok

/-- the trackers of the Stability Pool are at most the tokens at its address -/
theorem reached_poolTokens (calls : List (Tx c)) :
    (reached c calls).stabilityPool.totalSIMDeposits = (reached c calls).sim.balanceOf c.stabilityPool ∧
      (reached c calls).stabilityPool.WSTETH ≤ (reached c calls).wsteth.balanceOf c.stabilityPool := by
  have h : Balanced c (reached c calls) := reached_balanced calls
  have hdeposits := h.deposits
  have hcovered := h.covered .stabilityPool
  simp only [gap] at hdeposits hcovered
  omega

/-! ## The transfers of a withdrawal -/

/-- they go through where the pool has the tokens -/
theorem StabilityPool.payments_succeed {a : Address} (ha : a ≠ 0) {SIMAmount coll : ℕ}
    (pool : SimContracts.StabilityPool.Pool) (hSIM : SIMAmount ≤ s.sim.balanceOf c.stabilityPool)
    (hcoll : coll ≤ s.wsteth.balanceOf c.stabilityPool) (hne : a ≠ c.stabilityPool) :
    ∃ s₁ s', StabilityPool.sendSIM c s a SIMAmount = .ok s₁ ∧
      StabilityPool.sendGain c { s₁ with stabilityPool := pool } a coll = .ok s' ∧
      s'.sim.balanceOf a = s.sim.balanceOf a + SIMAmount ∧ s'.wsteth.balanceOf a = s.wsteth.balanceOf a + coll := by
  have hpool : c.stabilityPool ≠ 0 := by
    have h := c.distinct
    simp only [List.nodup_cons, List.mem_cons, not_or] at h
    exact Ne.symm h.1.2.2.1
  obtain ⟨s₁, hs₁, hbalance, hWSTETH⟩ : ∃ s₁, StabilityPool.sendSIM c s a SIMAmount = .ok s₁ ∧
      s₁.sim.balanceOf a = s.sim.balanceOf a + SIMAmount ∧ s₁.wsteth = s.wsteth := by
    unfold StabilityPool.sendSIM
    split_ifs with h0
    · exact ⟨s, rfl, by omega, rfl⟩
    · obtain ⟨t, ht⟩ := ERC20.transfer_succeeds hpool ha hSIM
      refine ⟨{ s with sim := t }, ?_, ?_, rfl⟩
      · simp only [SIMToken.returnFromPool, require_bind, ht, ok_bind]
        exact ⟨.inr trivial, rfl⟩
      · rw [ERC20.transfer_other ht hne, if_pos rfl]
  unfold StabilityPool.sendGain
  split_ifs with h0
  · exact ⟨s₁, _, hs₁, rfl, hbalance, by rw [hWSTETH]; omega⟩
  · obtain ⟨t, ht⟩ := ERC20.transfer_succeeds hpool ha hcoll
    refine ⟨s₁, { s₁ with stabilityPool := pool, wsteth := t }, hs₁, ?_, hbalance, ?_⟩
    · simp only [transferWSTETH, hWSTETH, ht, ok_bind]
      rfl
    · rw [ERC20.transfer_other ht hne, if_pos rfl]

/-! ## Results -/

/-- **What depositors are shown is there.** In every run whose successful liquidations charge in full what they offset, the
compounded deposits together are at most the SIM of the Stability Pool, and the gains at most its wstETH. -/
theorem depositors_covered (c : Config) (calls : List (Tx c)) (hfull : AlongOk (exec c) (OffsetsInFull c) (init c) calls) :
    let s := reached c calls
    ∑ a, (SimContracts.StabilityPool.getCompoundedSIMDeposit s.stabilityPool a).shown ≤ s.sim.balanceOf c.stabilityPool ∧
      ∑ a, (SimContracts.StabilityPool.getDepositorWSTETHGain s.stabilityPool a).shown ≤
        s.wsteth.balanceOf c.stabilityPool := by
  have hgains := reached_gainsBacked calls hfull
  obtain ⟨hdeposits, hcoll⟩ := reached_poolTokens calls
  exact ⟨hgains.deposits.sum_le.trans hdeposits.le, hgains.sum_le.trans hcoll⟩

/-- 0.995 SIM of Bob's deposit of 2 are left, and collateral of Alice's trove is his gain -/
def offsetOnce : List (Tx exampleConfig) := twoInPool ++ [atPrice (1000 * 10 ^ 18) bob (.liquidate 1)]

theorem offsetOnce_inFull : AlongOk (exec exampleConfig) (OffsetsInFull exampleConfig) (init exampleConfig) offsetOnce := by
  decide +kernel

theorem depositors_covered_offsetOnce :
    ∑ a, (SimContracts.StabilityPool.getCompoundedSIMDeposit (reached exampleConfig offsetOnce).stabilityPool a).shown ≤
        (reached exampleConfig offsetOnce).sim.balanceOf exampleConfig.stabilityPool :=
  (depositors_covered exampleConfig offsetOnce offsetOnce_inFull).1

/-- **A withdrawal goes through.** In every run whose successful liquidations charge in full what they offset: if the lowest ICR
is not below MCR (or only the gains are withdrawn), the issuance answers and the depositor's three readings do not overflow,
then `withdrawFromSP` succeeds, and pays the deposit and the collateral gain that are shown. -/
theorem withdrawal_succeeds (c : Config) (calls : List (Tx c))
    (hfull : AlongOk (exec c) (OffsetsInFull c) (init c) calls) (env : Env) (a : Account c) (ha : a.address ≠ 0)
    (amount ICR issued : ℕ) (hICR : StabilityPool.lowestICR env (reached c calls) amount = .ok ICR)
    (hMCR : amount = 0 ∨ MCR ≤ ICR) (hissue : env.issueSHADY = .ok issued) (hsend : env.sendSHADY = .ok ())
    (pool : SimContracts.StabilityPool.Pool)
    (hissued : SimContracts.StabilityPool.triggerSHADYIssuance (reached c calls).stabilityPool issued = .ok pool)
    (deposit wsteth shady : ℕ) (hshows : SimContracts.StabilityPool.Shows pool a.address deposit wsteth shady)
    (hdeposit : 0 < (reached c calls).stabilityPool.deposits a.address) :
    ∃ s', exec c (reached c calls) ⟨env, a, .withdrawFromSP amount⟩ = .ok s' ∧
      s'.sim.balanceOf a.address = (reached c calls).sim.balanceOf a.address + min amount deposit ∧
      s'.wsteth.balanceOf a.address = (reached c calls).wsteth.balanceOf a.address + wsteth := by
  have hgains := reached_gainsBacked calls hfull
  obtain ⟨hdeposits, hcoll⟩ := reached_poolTokens calls
  have hne : a.address ≠ c.stabilityPool := fun e => a.notMem_pools (by simp [Config.pools, e])
  have hread : deposit = SimContracts.StabilityPool.reading (reached c calls).stabilityPool a.address := by
    rw [← SimContracts.StabilityPool.triggerSHADYIssuance_reading hissued]
    exact SimContracts.StabilityPool.getCompoundedSIMDeposit_reading hshows.1
  obtain ⟨e, G, rfl⟩ := SimContracts.StabilityPool.triggerSHADYIssuance_ok hissued
  have htotal : deposit ≤ (reached c calls).stabilityPool.totalSIMDeposits := by
    have hshown : deposit =
        (SimContracts.StabilityPool.getCompoundedSIMDeposit (reached c calls).stabilityPool a.address).shown :=
      congrArg Res.shown hshows.1.symm
    rw [hshown]
    exact (Ledger.le_sum _ a.address).trans hgains.deposits.sum_le
  have hgain : wsteth ≤ (reached c calls).stabilityPool.WSTETH := by
    have hshown : wsteth =
        (SimContracts.StabilityPool.getDepositorWSTETHGain (reached c calls).stabilityPool a.address).shown :=
      congrArg Res.shown hshows.2.1.symm
    rw [hshown]
    exact (Ledger.le_sum _ a.address).trans hgains.sum_le
  obtain ⟨pool', hpool⟩ := SimContracts.StabilityPool.withdrawFromSP_succeeds hMCR hdeposit hissued hshows
    (hread.trans_le ((reached_within calls).reading_le _)) htotal hgain
  obtain ⟨s₁, s', hsent, hpaid, hSIM, hWSTETH⟩ := StabilityPool.payments_succeed ha pool'
    (((min_le_right _ _).trans htotal).trans_eq hdeposits) (hgain.trans hcoll) hne
  refine ⟨s', ?_, hSIM, hWSTETH⟩
  simp only [exec, StabilityPool.withdrawFromSP, hICR, hissue, hpool, hsend, hsent, ok_bind]
  exact hpaid

/-- Bob asks for 1 SIM and gets what is left of his deposit, with the collateral of the offset -/
theorem withdrawal_succeeds_bob :
    ∃ s', exec exampleConfig (reached exampleConfig offsetOnce)
        (atPrice (1000 * 10 ^ 18) bob (.withdrawFromSP (10 ^ 18))) = .ok s' ∧
      s'.sim.balanceOf 2 = 998 * 10 ^ 18 + 994999999999999998 ∧ s'.wsteth.balanceOf 2 = 10 ^ 30 - 100 * 10 ^ 18 + 10 ^ 15 := by
  have hICR : StabilityPool.lowestICR (atPrice (1000 * 10 ^ 18) bob .closeTrove).env (reached exampleConfig offsetOnce)
      (10 ^ 18) = .ok 99502487562189054726 := by decide +kernel
  obtain ⟨s', h, hSIM, hWSTETH⟩ := withdrawal_succeeds exampleConfig offsetOnce offsetOnce_inFull
    (atPrice (1000 * 10 ^ 18) bob .closeTrove).env bob (by decide) (10 ^ 18) 99502487562189054726 0 hICR (.inr (by decide))
    rfl rfl (reached exampleConfig offsetOnce).stabilityPool
    (SimContracts.StabilityPool.triggerSHADYIssuance_zero _) 994999999999999998 995000000000000 0
    (by decide +kernel) (by decide +kernel)
  refine ⟨s', h, ?_, ?_⟩
  · rw [show (2 : Address) = bob.address from rfl, hSIM]
    decide +kernel
  · rw [show (2 : Address) = bob.address from rfl, hWSTETH]
    decide +kernel

end SimContracts.Protocol
