/-
Collateral that somebody else sends to `BorrowerOperations`.

`_adjustTrove` takes the whole token balance of `BorrowerOperations` for the collateral that came with the call ("based on
whether or not WSTETH was sent in the transaction", says the comment). Everybody can send tokens there. A single wei makes
every withdrawal of collateral revert, and goes to the trove of whoever adjusts theirs next; so no call that goes through
is independent of it (`donation_interferes`).
-/
import SimContracts.Protocol.Registry

namespace SimContracts.Protocol

open Solidity TroveManager BorrowerOperations

variable {c : Config} {env : Env} {s s' s₁ : System} {b sender : Address}

/-- the calls by which an owner adjusts their trove: the collateral they add, and the arguments of `_adjustTrove` -/
def adjusts : Call → Option (ℕ × AdjustArgs)
  | .addColl amount upperHint lowerHint => some (amount, ⟨0, 0, false, upperHint, lowerHint, 0⟩)
  | .withdrawColl collWithdrawal upperHint lowerHint => some (0, ⟨collWithdrawal, 0, false, upperHint, lowerHint, 0⟩)
  | .withdrawSIM maxFeePercentage SIMAmount upperHint lowerHint =>
    some (0, ⟨0, SIMAmount, true, upperHint, lowerHint, maxFeePercentage⟩)
  | .repaySIM SIMAmount upperHint lowerHint => some (0, ⟨0, SIMAmount, false, upperHint, lowerHint, 0⟩)
  | .adjustTrove addColAmount args => some (addColAmount, args)
  | _ => none

/-- what an adjustment leaves of the collateral, when `arriving` came with the call -/
structure AdjustedColl (c : Config) (s s' : System) (b : Address) (arriving collWithdrawal : ℕ) : Prop where
  coll : (trove s' b).coll = adjustedColl c s b arriving collWithdrawal
  singular : s.wsteth.balanceOf c.borrowerOperations + arriving = 0 ∨ collWithdrawal = 0
  withdrawal : collWithdrawal ≤ settledColl s b

theorem adjust_adjustedColl {a : AdjustArgs} (hne : sender ≠ c.defaultPool) (h : adjust c env sender s b a = .ok s') :
    AdjustedColl c s s' b 0 a.collWithdrawal := by
  obtain ⟨price, mode, s₁, s₂, s₃, net, hstep⟩ := adjust_ok h
  have hsettled := settlePendingRewards_settled hstep.settled
  obtain ⟨hcoll, -, -, -⟩ := (SamePosition.of_frame (a := b) (chargeFee_frame hstep.fee)).fields
  obtain ⟨hcoll', -, -, -⟩ := (SamePosition.of_frame (a := b) (moveTokens_frame hne hstep.moved)).fields
  obtain ⟨⟨stake, -, hself⟩, -⟩ := hstep.edited.troves
  refine ⟨?_, ?_, ?_⟩
  · rw [hcoll', hself]
    simp only [TroveChange.newColl, adjustChange, adjustedColl, hcoll, hsettled.coll, Nat.add_zero]
  · rw [Nat.add_zero]
    exact hstep.singular
  · rw [← hsettled.coll, ← hcoll]
    exact hstep.withdrawal

/-- the same with collateral that the caller sends first -/
theorem AdjustedColl.received {amount collWithdrawal : ℕ} (hne : sender ≠ c.borrowerOperations)
    (hr : transferFromWSTETH s c.borrowerOperations sender c.borrowerOperations amount = .ok s₁)
    (h : AdjustedColl c s₁ s' b 0 collWithdrawal) : AdjustedColl c s s' b amount collWithdrawal := by
  have hcoll := (SamePosition.of_frame (a := b) (transferFromWSTETH_frame hr)).settledColl
  have hbalance : s₁.wsteth.balanceOf c.borrowerOperations = s.wsteth.balanceOf c.borrowerOperations + amount := by
    obtain ⟨t, ht, rfl⟩ := transferFromWSTETH_ok hr
    obtain ⟨t₁, hbal, -, htr⟩ := ERC20.transferFrom_ok ht
    have hreceived := ERC20.transfer_other htr (Ne.symm hne)
    rwa [hbal, if_pos rfl] at hreceived
  refine ⟨?_, ?_, ?_⟩
  · rw [h.coll, adjustedColl_received hne hr]
  · have := h.singular
    rwa [hbalance, Nat.add_zero] at this
  · rw [← hcoll]
    exact h.withdrawal

theorem exec_adjustedColl {tx : Tx c} {added : ℕ} {a : AdjustArgs} (hcall : adjusts tx.call = some (added, a))
    (h : exec c s tx = .ok s') : AdjustedColl c s s' tx.sender.address added a.collWithdrawal := by
  obtain ⟨env, sender, call⟩ := tx
  have hdefault : sender.address ≠ c.defaultPool :=
    fun e => sender.notMem_pools (by simp [Config.pools, e])
  have hborrower : sender.address ≠ c.borrowerOperations :=
    fun e => sender.outside (by simp [Config.contracts, e])
  unfold exec at h
  cases call with
  | addColl amount p n =>
    cases hcall
    obtain ⟨s₁, h1, h⟩ := bind_ok.1 h
    exact (adjust_adjustedColl hdefault h).received hborrower h1
  | withdrawColl w p n =>
    cases hcall
    exact adjust_adjustedColl hdefault h
  | withdrawSIM maxFee SIMAmount p n =>
    cases hcall
    exact adjust_adjustedColl hdefault h
  | repaySIM SIMAmount p n =>
    cases hcall
    exact adjust_adjustedColl hdefault h
  | adjustTrove amount args =>
    cases hcall
    obtain ⟨s₁, h1, h⟩ := bind_ok.1 h
    unfold receiveColl at h1
    split_ifs at h1 with hpos
    · exact (adjust_adjustedColl hdefault h).received hborrower h1
    · cases h1
      obtain rfl : added = 0 := by omega
      exact adjust_adjustedColl hdefault h
  | _ => cases hcall

theorem adjustedColl_eq (s : System) (b : Address) (arriving collWithdrawal : ℕ) :
    adjustedColl c s b arriving collWithdrawal =
      if s.wsteth.balanceOf c.borrowerOperations + arriving = 0 then settledColl s b - collWithdrawal
      else settledColl s b + (s.wsteth.balanceOf c.borrowerOperations + arriving) := by
  by_cases h0 : s.wsteth.balanceOf c.borrowerOperations + arriving = 0
  · simp [adjustedColl, getCollChange, after, h0]
  · simp only [adjustedColl, getCollChange, after, ne_eq, h0, not_false_eq_true, if_true, if_false]

/-- the collateral after a call is what the caller asked for, exactly if nothing lay at `BorrowerOperations` -/
theorem AdjustedColl.exact_iff {added collWithdrawal : ℕ} (h : AdjustedColl c s s' b added collWithdrawal) :
    (trove s' b).coll + collWithdrawal = settledColl s b + added ↔ s.wsteth.balanceOf c.borrowerOperations = 0 := by
  have hcoll := h.coll
  rw [adjustedColl_eq] at hcoll
  have hsingular := h.singular
  have hle := h.withdrawal
  split_ifs at hcoll with h0
  · omega
  · have hw := hsingular.resolve_left h0
    omega

/-- the call does not depend on whether it is made in `s` or in `s'` -/
def Unaffected (c : Config) (s s' : System) (tx : Tx c) : Prop :=
  ((∃ t, exec c s tx = .ok t) ↔ ∃ t, exec c s' tx = .ok t) ∧
    ∀ t t', exec c s tx = .ok t → exec c s' tx = .ok t' →
      (trove t' tx.sender.address).coll = (trove t tx.sender.address).coll ∧
        (trove t' tx.sender.address).debt = (trove t tx.sender.address).debt

/-- a call that succeeds with and without a donation does not leave the same collateral -/
theorem AdjustedColl.donated {t t' : System} {added collWithdrawal x : ℕ} (hx : 0 < x)
    (hcoll : settledColl s' b = settledColl s b)
    (hbalance : s'.wsteth.balanceOf c.borrowerOperations = s.wsteth.balanceOf c.borrowerOperations + x)
    (h : AdjustedColl c s t b added collWithdrawal) (h' : AdjustedColl c s' t' b added collWithdrawal) :
    (trove t b).coll < (trove t' b).coll := by
  have hne : s'.wsteth.balanceOf c.borrowerOperations + added ≠ 0 := by omega
  -- the donation excludes a withdrawal
  have hw := h'.singular.resolve_left hne
  rw [h.coll, h'.coll, adjustedColl_eq, adjustedColl_eq, if_neg hne, hcoll, hbalance, hw]
  split_ifs
  · omega
  · omega

/-- **A donation interferes with every call that goes through.** After anybody sent `x` wstETH to `BorrowerOperations`, an
adjustment is unaffected only if it reverts with and without the donation. And the collateral change of a successful call
is what the caller added or withdrew, next to applied rewards, exactly if nothing lay at `BorrowerOperations` before. -/
theorem donation_interferes (c : Config) (s s' : System) (donor : Account c) (x : ℕ) (tx : Tx c) (added : ℕ)
    (a : AdjustArgs) (hx : 0 < x) (hdonation : transferWSTETH s donor.address c.borrowerOperations x = .ok s')
    (hcall : adjusts tx.call = some (added, a)) :
    (Unaffected c s s' tx ↔ (∀ t, exec c s tx ≠ .ok t) ∧ ∀ t, exec c s' tx ≠ .ok t) ∧
      ∀ t, exec c s tx = .ok t →
        ((trove t tx.sender.address).coll + a.collWithdrawal = settledColl s tx.sender.address + added ↔
          s.wsteth.balanceOf c.borrowerOperations = 0) := by
  have hcoll := (SamePosition.of_frame (a := tx.sender.address) (transferWSTETH_frame hdonation)).settledColl
  have hbalance : s'.wsteth.balanceOf c.borrowerOperations = s.wsteth.balanceOf c.borrowerOperations + x := by
    have hne : c.borrowerOperations ≠ donor.address := fun e => donor.outside (by simp [Config.contracts, ← e])
    obtain ⟨t, ht, rfl⟩ := transferWSTETH_ok hdonation
    have hreceived := ERC20.transfer_other ht hne
    rwa [if_pos rfl] at hreceived
  refine ⟨⟨fun h => ?_, fun h => ?_⟩, fun t ht => (exec_adjustedColl hcall ht).exact_iff⟩
  · -- a call that succeeds in one state succeeds in both, and the collateral gives the donation away
    have hboth : ∀ t t', exec c s tx = .ok t → exec c s' tx = .ok t' → False := by
      intro t t' ht ht'
      have hlt := (exec_adjustedColl hcall ht).donated hx hcoll hbalance (exec_adjustedColl hcall ht')
      exact absurd (h.2 t t' ht ht').1 hlt.ne'
    refine ⟨fun t ht => ?_, fun t' ht' => ?_⟩
    · obtain ⟨t', ht'⟩ := h.1.1 ⟨t, ht⟩
      exact hboth t t' ht ht'
    · obtain ⟨t, ht⟩ := h.1.2 ⟨t', ht'⟩
      exact hboth t t' ht ht'
  · refine ⟨⟨?_, ?_⟩, fun t t' ht => absurd ht (h.1 t)⟩
    · rintro ⟨t, ht⟩
      exact absurd ht (h.1 t)
    · rintro ⟨t, ht⟩
      exact absurd ht (h.2 t)

/-- Bob withdraws 1 wstETH from his trove -/
def bobWithdraws : Tx exampleConfig := atPrice (2000 * 10 ^ 18) bob (.withdrawColl (10 ^ 18) 0 0)

/-- Alice sends 1 wei to `BorrowerOperations` -/
def aliceDonates : Tx exampleConfig := atPrice (2000 * 10 ^ 18) alice (.transferWSTETH exampleConfig.borrowerOperations 1)

theorem donation_interferes_bob :
    ∃ s', transferWSTETH (reached exampleConfig twoTroves) alice.address exampleConfig.borrowerOperations 1 = .ok s' ∧
      (Unaffected exampleConfig (reached exampleConfig twoTroves) s' bobWithdraws ↔
        (∀ t, exec exampleConfig (reached exampleConfig twoTroves) bobWithdraws ≠ .ok t) ∧
          ∀ t, exec exampleConfig s' bobWithdraws ≠ .ok t) := by
  obtain ⟨s', hs'⟩ : ∃ s',
      transferWSTETH (reached exampleConfig twoTroves) alice.address exampleConfig.borrowerOperations 1 = .ok s' :=
    Res.failure_none (by decide +kernel)
  exact ⟨s', hs', (donation_interferes exampleConfig _ s' alice 1 bobWithdraws 0 ⟨10 ^ 18, 0, false, 0, 0, 0⟩ (by decide) hs'
    rfl).1⟩

/-- **One wei blocks a withdrawal**: Bob's goes through, and reverts when Alice sent a wei before. -/
theorem donation_blocks_withdrawal :
    Res.failure (exec exampleConfig (reached exampleConfig twoTroves) bobWithdraws) = none ∧
      Res.failure (exec exampleConfig (reached exampleConfig (twoTroves ++ [aliceDonates])) bobWithdraws) =
        some (.error "BorrowerOperations: Cannot withdraw and add coll") :=
  ⟨by decide +kernel, by decide +kernel⟩

end SimContracts.Protocol
