/-
Stakes that vanish.

A stake is set as `coll * totalStakesSnapshot / totalCollateralSnapshot`, rounded down. Each redistribution that puts much
collateral on a small stake makes the ratio of the two snapshots smaller, and two of them in a row are enough to make it
smaller than one over the collateral of a new trove (`stake_vanishes`): the trove is open with a stake of 0. When it is
the last one, nothing can be redistributed to it.

As long as every stake is set for a collateral of at least `totalCollateralSnapshot / totalStakesSnapshot`, all stakes
are positive and neither the division by `totalStakes` nor the assertion about the snapshot can fail.
-/
import SimContracts.Protocol.Registry

namespace SimContracts.Protocol

open Solidity TroveManager BorrowerOperations

variable {c : Config} {s s' s₀ : System} {a b : Address}

/-! ## One move -/

/-- every trove counts, and so do the snapshots -/
structure Staked (s : System) : Prop where
  stake : ∀ a, (trove s a).status = .active → 0 < (trove s a).stake
  snapshot : s.troveManager.totalCollateralSnapshot ≠ 0 → 0 < s.troveManager.totalStakesSnapshot

/-- the collateral is enough for a unit of stake, at the ratio of the snapshots -/
def Stakeable (s : System) (coll : ℕ) : Prop :=
  s.troveManager.totalCollateralSnapshot = 0 ∨
    s.troveManager.totalCollateralSnapshot ≤ coll * s.troveManager.totalStakesSnapshot

instance (s : System) (coll : ℕ) : Decidable (Stakeable s coll) := inferInstanceAs (Decidable (_ ∨ _))

theorem computeNewStake_pos {coll stake : ℕ} (h : computeNewStake s coll = .ok stake) (hcoll : 0 < coll)
    (hs : Stakeable s coll) : 0 < stake := by
  rw [computeNewStake_ok h]
  split_ifs with h0
  · exact hcoll
  · exact Nat.div_pos (hs.resolve_left h0) (Nat.pos_of_ne_zero h0)

/-- an open trove makes the total positive -/
theorem Staked.totalStakes_pos (h : Staked s) (hreg : Registry s) (ha : (trove s a).status = .active) :
    0 < s.troveManager.totalStakes := by
  rw [hreg.totalStakes]
  exact (h.stake a ha).trans_le (Ledger.le_sum (fun a => (trove s a).stake) a)

/-- a list with nodes has an open trove -/
theorem Registry.exists_active (h : Registry s) (hsize : s.sortedTroves.size ≠ 0) :
    ∃ a, (trove s a).status = .active := by
  obtain ⟨ids, hchain, hids⟩ := h.list
  rw [hchain.size] at hsize
  obtain ⟨a, ha⟩ := List.exists_mem_of_length_pos (Nat.pos_of_ne_zero hsize)
  exact ⟨a, (hids a).1 ha⟩

/-- a trove in the list has collateral: its nominal ratio is positive -/
theorem Registry.coll_pos_of_edited {coll debt : ℕ} (h : Registry s)
    (hdebt : MIN_NET_DEBT ≤ debt ∨ (trove s b).debt ≤ debt) (he : Edited s s' b coll debt) : 0 < coll := by
  have hmin := h.minDebt b (h.active_of_edited he)
  have hle : MIN_NET_DEBT ≤ debt := by omega
  obtain ⟨nicr, NICR, p, n, -, hN, hre⟩ := he.list
  obtain ⟨ids, hchain, -⟩ := h.list
  obtain ⟨-, -, -, -, -, -, -, hpos, -⟩ := SortedTroves.reInsert_chain hchain hre
  exact computeNominalCR_coll_pos hN (lt_of_lt_of_le (by decide) hle) hpos

theorem Registry.coll_pos_of_created {coll debt NICR : ℕ} (h : Registry s) (hdebt : MIN_NET_DEBT ≤ debt)
    (hN : computeNominalCR coll debt = .ok NICR) (hc : Created s s' b coll debt NICR) : 0 < coll := by
  obtain ⟨nicr, p, n, -, hins⟩ := hc.list
  obtain ⟨ids, hchain, -⟩ := h.list
  obtain ⟨-, -, hpos, -⟩ := SortedTroves.insert_chain hchain hins
  exact computeNominalCR_coll_pos hN (lt_of_lt_of_le (by decide) hdebt) hpos

/-- no trove loses its stake, and the snapshots are the same -/
theorem Staked.congr (h : Staked s)
    (htrove : ∀ a, (trove s' a).status = .active → (trove s' a).stake = (trove s a).stake ∧ (trove s a).status = .active)
    (h1 : s'.troveManager.totalStakesSnapshot = s.troveManager.totalStakesSnapshot)
    (h2 : s'.troveManager.totalCollateralSnapshot = s.troveManager.totalCollateralSnapshot) : Staked s' := by
  refine ⟨fun a ha => ?_, ?_⟩
  · obtain ⟨hstake, hactive⟩ := htrove a ha
    rw [hstake]
    exact h.stake a hactive
  · rw [h1, h2]
    exact h.snapshot

theorem Staked.edited {coll debt : ℕ} (h : Staked s) (hcoll : 0 < coll) (hs : Stakeable s coll)
    (he : Edited s s' b coll debt) : Staked s' := by
  obtain ⟨⟨stake, hstake, hself⟩, hother⟩ := he.troves
  obtain ⟨_, -, -, htm⟩ := he.stake
  refine ⟨fun a ha => ?_, by rw [htm]; exact h.snapshot⟩
  by_cases hab : a = b
  · rw [hab, hself]
    exact computeNewStake_pos hstake hcoll hs
  · rw [hother a hab] at ha ⊢
    exact h.stake a ha

theorem Staked.created {coll debt NICR : ℕ} (h : Staked s) (hempty : (trove s b).coll = 0) (hcoll : 0 < coll)
    (hs : Stakeable s coll) (hc : Created s s' b coll debt NICR) : Staked s' := by
  obtain ⟨stake, hstake, -, htm⟩ := hc.stake
  rw [hempty, Nat.zero_add] at hstake
  refine ⟨fun a ha => ?_, by rw [htm]; exact h.snapshot⟩
  by_cases hab : a = b
  · rw [hab, trove, htm, createdManager_self]
    exact computeNewStake_pos hstake hcoll hs
  · rw [trove, htm, createdManager_other _ _ _ _ hab] at ha ⊢
    exact h.stake a ha

theorem Staked.closed {status : Status} (h : Staked s) (hc : Closed s s' b status) : Staked s' := by
  obtain ⟨-, hother, hstatus⟩ := hc.troves
  refine h.congr (fun a ha => ?_) (by rw [hc.troveManager]; rfl) (by rw [hc.troveManager]; rfl)
  obtain ⟨hactive, hab⟩ := (hstatus a).1 ha
  obtain ⟨i, hi⟩ := hother a hab
  rw [hi]
  exact ⟨rfl, hactive⟩

/-- every kind of move keeps the stakes positive, if the stake it sets is -/
theorem move_staked {plan : Plan} (hplan : ∀ b coll, plan.stake = some (b, coll) → Stakeable s₀ coll) (hreg : Registry s)
    (h : Staked s) (hm : Move c s₀ plan s s') : Staked s' := by
  cases hm with
  | frame hf =>
    obtain ⟨r, t, ht⟩ := hf.troveManager
    refine h.congr (fun a ha => ?_) (by rw [ht]) (by rw [ht])
    rw [trove, ht] at ha ⊢
    exact ⟨rfl, ha⟩
  | settle b pw pd hhas hpw hpd hmoved =>
    obtain ⟨htm, -⟩ := hmoved.same
    refine h.congr (fun a ha => ?_) (by rw [htm]; rfl) (by rw [htm]; rfl)
    rw [trove, htm] at ha ⊢
    by_cases hab : a = b
    · simp only [settledManager, hab, Function.update_self] at ha ⊢
      exact ⟨rfl, ha⟩
    · simp only [settledManager, Function.update_of_ne hab] at ha ⊢
      exact ⟨rfl, ha⟩
  | edit b coll debt hstake harrived hdebt he =>
    refine h.edited (hreg.coll_pos_of_edited hdebt he) ?_ he
    have hs := hplan b coll hstake
    rwa [Stakeable, ← harrived.totalStakesSnapshot, ← harrived.totalCollateralSnapshot] at hs
  | create b coll debt NICR hstake hstart hnew hdebt hN hc =>
    refine h.created (hreg.idle b hnew).1 (hreg.coll_pos_of_created hdebt hN hc) ?_ hc
    obtain ⟨r, t, ht⟩ := hstart.troveManager
    have hs := hplan b coll hstake
    rw [Stakeable, ht]
    exact hs
  | close b status hc => exact h.closed hc
  | liquidate b t ht hmoved hc =>
    obtain ⟨htm, -⟩ := hmoved.same
    refine Staked.closed (h.congr (fun a ha => ?_) (by rw [htm]) (by rw [htm])) hc
    rw [trove, htm] at ha ⊢
    exact ⟨rfl, ha⟩
  | redistribute coll hpos hred =>
    obtain ⟨rw, ew, rd, ed, u, -, -, -, rfl⟩ := hred.state
    exact ⟨h.stake, h.snapshot⟩
  | snapshot coll hopen hs =>
    obtain ⟨a, ha⟩ := hreg.exists_active hopen
    have hpos := h.totalStakes_pos hreg ha
    obtain ⟨-, rfl⟩ := updateSystemSnapshots_ok hs
    exact ⟨h.stake, fun _ => hpos⟩

/-! ## Runs -/

/-- the stake that a transaction sets is for enough collateral -/
def SetsStake (c : Config) (s : System) (tx : Tx c) : Prop := ∀ x ∈ (plan c s tx).stake, Stakeable s x.2

instance (c : Config) (s : System) (tx : Tx c) : Decidable (SetsStake c s tx) :=
  inferInstanceAs (Decidable (∀ x ∈ (plan c s tx).stake, Stakeable s x.2))

theorem exec_staked {tx : Tx c} (hset : SetsStake c s tx) (h : Registry s ∧ Staked s) (hexec : exec c s tx = .ok s') :
    Registry s' ∧ Staked s' :=
  exec_keeps (fun _ _ => move_staked fun b coll hplan => hset (b, coll) hplan) h hexec

theorem init_staked (c : Config) : Staked (init c) := ⟨fun a ha => by simp [trove, init] at ha, fun h => absurd rfl h⟩

theorem reached_staked (calls : List (Tx c)) (h : AlongOk (exec c) (SetsStake c) (init c) calls) :
    Staked (reached c calls) :=
  (run_inv_ok (exec c) (fun _ _ _ h hP => exec_staked hP h) _ calls ⟨init_registry c, init_staked c⟩ h).2

/-- a sequence of liquidations sets no stake -/
theorem sequence_staked {v v' : LiquidationSequence} (hseq : Sequence c v v') (h : Registry v.s ∧ Staked v.s)
    (hv : v.totals.totalDebtInSequence = 0) : Registry v'.s ∧ Staked v'.s := by
  have hmoves : Moves c v.s ⟨none, 0⟩ v.s v'.s := (liquidated_moves hseq hv).1
  exact hmoves.keepsRegistry (fun _ _ => move_staked fun b coll hplan => by simp at hplan) h

/-- the snapshots keep the assertion -/
theorem Staked.assertsHold (h : Staked s) (coll : ℕ) : AssertsHold (computeNewStake s coll) := by
  unfold computeNewStake
  split_ifs with h0
  · exact .ok _
  · refine (assertsHold_assert (h.snapshot h0)).bind fun _ _ => ?_
    exact (assertsHold_umul _ _).bind fun _ _ => assertsHold_udiv _ _

/-- **Stakes do not vanish** in a run whose successful calls set them for enough collateral: every active trove has a stake,
so the total is positive whenever a trove is active, also after the troves of a liquidation were closed, and the assertion
about the snapshot holds. -/
theorem stakes_positive (c : Config) (calls : List (Tx c)) (h : AlongOk (exec c) (SetsStake c) (init c) calls) :
    let s := reached c calls
    (∀ a, (trove s a).status = .active → 0 < (trove s a).stake) ∧
      ((∃ a, (trove s a).status = .active) → 0 < s.troveManager.totalStakes) ∧
      (∀ price mode n v, liquidateTrovesTotals c price s mode n = .ok v → (∃ a, (trove v.s a).status = .active) →
        0 < v.s.troveManager.totalStakes) ∧
      (∀ price mode troveArray v, batchTotals c price s mode troveArray = .ok v →
        (∃ a, (trove v.s a).status = .active) → 0 < v.s.troveManager.totalStakes) ∧
      ∀ coll, AssertsHold (computeNewStake s coll) := by
  intro s
  have hreg : Registry s := reached_registry calls
  have hstaked : Staked s := reached_staked calls h
  have hafter : ∀ debt coll v, Sequence c (startSequence s debt coll) v → (∃ a, (trove v.s a).status = .active) →
      0 < v.s.troveManager.totalStakes := by
    rintro debt coll v hseq ⟨a, ha⟩
    obtain ⟨hreg', hstaked'⟩ := sequence_staked hseq ⟨hreg, hstaked⟩ rfl
    exact hstaked'.totalStakes_pos hreg' ha
  refine ⟨hstaked.stake, ?_, ?_, ?_, hstaked.assertsHold⟩
  · rintro ⟨a, ha⟩
    exact hstaked.totalStakes_pos hreg ha
  · intro price mode n v hv
    obtain ⟨debt, coll, hseq⟩ := liquidateTrovesTotals_ok hv
    exact hafter debt coll v hseq
  · intro price mode troveArray v hv
    obtain ⟨debt, coll, hseq⟩ := batchTotals_ok hv
    exact hafter debt coll v hseq

/-- Alice has 200000 wstETH and 260 million SIM, Bob 0.001 wstETH and 1 SIM. The price falls to 1400 and Alice is
liquidated; Carol opens a trove of 0.0011 wstETH. -/
def redistributedOnce : List (Tx exampleConfig) :=
  funded alice ++ funded bob ++ funded carol ++ funded dave ++
    [atPrice (2000 * 10 ^ 18) alice (.openTrove (200000 * 10 ^ 18) (10 ^ 18) (260000000 * 10 ^ 18) 0 0),
      atPrice (2000 * 10 ^ 18) bob (.openTrove (10 ^ 15) (10 ^ 18) (10 ^ 18) 0 0),
      atPrice (1400 * 10 ^ 18) bob (.liquidate 1),
      atPrice (1400 * 10 ^ 18) carol (.openTrove (11 * 10 ^ 14) (10 ^ 18) (10 ^ 18) 0 0)]

theorem stakes_positive_once :
    (trove (reached exampleConfig redistributedOnce) 3).stake = 5527638 ∧
      ∀ a, (trove (reached exampleConfig redistributedOnce) a).status = .active →
        0 < (trove (reached exampleConfig redistributedOnce) a).stake :=
  ⟨by decide +kernel, (stakes_positive exampleConfig redistributedOnce (by decide +kernel)).1⟩

/-- Bob is liquidated as well, and Dave opens a trove like Carol's -/
def redistributedTwice : List (Tx exampleConfig) :=
  redistributedOnce ++ [atPrice (1400 * 10 ^ 18) carol (.liquidate 2),
    atPrice (1400 * 10 ^ 18) dave (.openTrove (11 * 10 ^ 14) (10 ^ 18) (10 ^ 18) 0 0)]

/-- **A stake vanishes**: Dave's trove is active with a stake of 0, and Carol, who could be liquidated with Dave's trove
left open, cannot: the division by the total stake fails. -/
theorem stake_vanishes :
    (trove (reached exampleConfig redistributedTwice) 4).status = .active ∧
      (trove (reached exampleConfig redistributedTwice) 4).stake = 0 ∧
      Res.failure (exec exampleConfig (reached exampleConfig redistributedTwice)
        (atPrice (1400 * 10 ^ 18) dave (.liquidate 3))) = some (.panic 0x12) :=
  ⟨by decide +kernel, by decide +kernel, by decide +kernel⟩

end SimContracts.Protocol
