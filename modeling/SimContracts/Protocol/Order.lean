/-
The order of the sorted list.

A node is put where its ratio belongs, by comparing with the ratios its neighbours have then. The list stays in order as
long as the ratios of the other troves do not change: an operation changes one trove and moves its node.

A redistribution changes all ratios at once. The header of `SortedTroves.sol` relies on it to keep the order, which it
does up to rounding: each trove's share is rounded down to a whole wei, and that costs a small trove relatively more than
a large one. Two troves with the same ratio and different sizes end up in the wrong order (`redistribution_disorders`).
So the order holds in the runs whose liquidations redistribute nothing (`list_ordered`).
-/
import SimContracts.Protocol.Registry

namespace SimContracts.Protocol

open Solidity TroveManager BorrowerOperations

variable {c : Config} {s s' s₀ : System} {a b : Address}

/-! ## Ratios without rewards -/

/-- the ratio of what is recorded of a trove -/
def nominal (s : System) (a : Address) : ℕ := (trove s a).coll * NICR_PRECISION / (trove s a).debt

/-- nothing was ever redistributed -/
structure NoRewards (tm : TroveManager) : Prop where
  L_WSTETH : tm.L_WSTETH = 0
  L_SIMDebt : tm.L_SIMDebt = 0
  snapshot : ∀ a, tm.rewardSnapshots a = ⟨0, 0⟩

/-- what a node of the list was inserted with -/
structure Rated (s : System) (a : Address) : Prop where
  debt : 0 < (trove s a).debt
  fits : (trove s a).coll * NICR_PRECISION < 2 ^ 256
  pos : 0 < nominal s a

theorem NoRewards.getCurrentTroveAmounts (h : NoRewards s.troveManager) (hcoll : (trove s a).coll < 2 ^ 256)
    (hdebt : (trove s a).debt < 2 ^ 256) :
    TroveManager.getCurrentTroveAmounts s a = .ok ((trove s a).coll, (trove s a).debt) := by
  have hpending : ∀ t, pendingReward 0 0 t = .ok 0 := fun t => rfl
  simp only [TroveManager.getCurrentTroveAmounts, getPendingWSTETHReward, getPendingSIMDebtReward, h.L_WSTETH, h.L_SIMDebt,
    h.snapshot, hpending, ok_bind, uadd_bind, pure_ok, Nat.add_zero, hcoll, hdebt, and_self]

/-- without rewards the ratio is that of the records -/
theorem Rated.getNominalICR (h : Rated s a) (hno : NoRewards s.troveManager) : TroveManager.getNominalICR s a = .ok (nominal s a) := by
  have hcoll : (trove s a).coll < 2 ^ 256 :=
    (Nat.le_mul_of_pos_right _ (by decide : 0 < NICR_PRECISION)).trans_lt h.fits
  have hdebt : (trove s a).debt < 2 ^ 256 := by
    have hle : (trove s a).debt ≤ (trove s a).coll * NICR_PRECISION := by
      rcases Nat.lt_or_ge ((trove s a).coll * NICR_PRECISION) (trove s a).debt with hlt | hge
      · have hpos := h.pos
        rw [nominal, Nat.div_eq_of_lt hlt] at hpos
        exact absurd hpos (lt_irrefl 0)
      · exact hge
    exact hle.trans_lt h.fits
  rw [TroveManager.getNominalICR, hno.getCurrentTroveAmounts hcoll hdebt, ok_bind]
  simp only [computeNominalCR, h.debt, if_true, umul_bind, udiv_ok, h.fits, nominal, and_self]

theorem rated_of_trove {coll debt NICR : ℕ} (hcoll : (trove s a).coll = coll) (hdebt : (trove s a).debt = debt)
    (hpos : 0 < debt) (hN : computeNominalCR coll debt = .ok NICR) (hNpos : 0 < NICR) : Rated s a ∧ nominal s a = NICR := by
  rw [computeNominalCR, if_pos hpos] at hN
  simp only [umul_bind, udiv_ok] at hN
  obtain ⟨hfits, -, hN⟩ := hN
  have hnominal : nominal s a = NICR := by rw [nominal, hcoll, hdebt, hN]
  exact ⟨⟨by rwa [hdebt], by rwa [hcoll], by rwa [hnominal]⟩, hnominal⟩

/-- the records of a trove are the same -/
theorem Rated.congr (h : Rated s a) (hcoll : (trove s' a).coll = (trove s a).coll)
    (hdebt : (trove s' a).debt = (trove s a).debt) : Rated s' a ∧ nominal s' a = nominal s a := by
  have hnominal : nominal s' a = nominal s a := by rw [nominal, hcoll, hdebt, nominal]
  exact ⟨⟨by rw [hdebt]; exact h.debt, by rw [hcoll]; exact h.fits, by rw [hnominal]; exact h.pos⟩, hnominal⟩

/-! ## One move -/

/-- the list is in the order of the ratios -/
structure Ordered (s : System) : Prop where
  noRewards : NoRewards s.troveManager
  rated : ∀ a, (trove s a).status = .active → Rated s a
  list : ∃ ids, SortedTroves.IsChain s.sortedTroves ids ∧ (∀ a, a ∈ ids ↔ (trove s a).status = .active) ∧
    SortedTroves.Descending (nominal s) ids

/-- no trove and no running sum changes -/
theorem Ordered.congr (h : Ordered s) (htrove : ∀ a, (trove s' a).coll = (trove s a).coll ∧
      (trove s' a).debt = (trove s a).debt ∧ (trove s' a).status = (trove s a).status)
    (hno : NoRewards s'.troveManager) (hlist : s'.sortedTroves = s.sortedTroves) : Ordered s' := by
  have hrated : ∀ a, (trove s a).status = .active → Rated s' a ∧ nominal s' a = nominal s a :=
    fun a ha => (h.rated a ha).congr (htrove a).1 (htrove a).2.1
  obtain ⟨ids, hchain, hids, hdesc⟩ := h.list
  refine ⟨hno, fun a ha => ?_, ids, hlist ▸ hchain, fun a => ?_, hdesc.congr fun a ha => ?_⟩
  · exact (hrated a ((htrove a).2.2 ▸ ha)).1
  · rw [(htrove a).2.2, hids a]
  · exact (hrated a ((hids a).1 ha)).2

/-- trove `b` is new or has other amounts, and its node is at the position of its ratio -/
theorem Ordered.place {ids us vs : List Address} {nicr : Address → Res ℕ} {coll debt NICR : ℕ} {p n : Address}
    (h : Ordered s) (hno : NoRewards s'.troveManager) (hother : ∀ a, a ≠ b → trove s' a = trove s a)
    (hself : (trove s' b).coll = coll ∧ (trove s' b).debt = debt ∧ (trove s' b).status = .active) (hdebt : 0 < debt)
    (hN : computeNominalCR coll debt = .ok NICR) (hNICR : 0 < NICR)
    (hids : ∀ a, a ∈ ids ↔ (trove s a).status = .active ∧ a ≠ b) (hdesc : SortedTroves.Descending (nominal s) ids)
    (hnicr : ∀ a, a ≠ b → nicr a = getNominalICR s a) (hpos : SortedTroves.Position ids nicr NICR p n us vs)
    (hchain : SortedTroves.IsChain s'.sortedTroves (us ++ b :: vs)) : Ordered s' := by
  obtain ⟨hrated, hnominal⟩ := rated_of_trove hself.1 hself.2.1 hdebt hN hNICR
  have hkept : ∀ a, a ≠ b → nominal s' a = nominal s a := fun a ha => by rw [nominal, hother a ha, nominal]
  refine ⟨hno, fun a ha => ?_, us ++ b :: vs, hchain, fun a => ?_, ?_⟩
  · by_cases hab : a = b
    · exact hab ▸ hrated
    · rw [hother a hab] at ha
      exact ((h.rated a ha).congr (by rw [hother a hab]) (by rw [hother a hab])).1
  · by_cases hab : a = b
    · simp [hab, hself.2.2]
    · rw [hother a hab, List.mem_append, List.mem_cons]
      have := hids a
      rw [hpos.split, List.mem_append] at this
      tauto
  · refine hpos.descending (fun a ha => ?_) (hdesc.congr fun a ha => hkept a ((hids a).1 ha).2) hnominal
    obtain ⟨hactive, hab⟩ := (hids a).1 ha
    rw [hnicr a hab, (h.rated a hactive).getNominalICR h.noRewards, hkept a hab]

theorem Ordered.edited {coll debt : ℕ} (h : Ordered s) (hdebt : MIN_NET_DEBT ≤ debt ∨ (trove s b).debt ≤ debt)
    (he : Edited s s' b coll debt) : Ordered s' := by
  obtain ⟨nicr, NICR, p, n, hnicr, hN, hre⟩ := he.list
  obtain ⟨ids, hchain, hids, hdesc⟩ := h.list
  obtain ⟨xs, ys, p', n', us, vs, rfl, hNICR, hpos, hchain'⟩ := SortedTroves.reInsert_chain hchain hre
  obtain ⟨⟨stake, -, hself⟩, hother⟩ := he.troves
  obtain ⟨_, -, -, htm⟩ := he.stake
  have hactive : (trove s b).status = .active := (hids b).1 (by simp)
  have hold := (h.rated b hactive).debt
  have hmin : 0 < MIN_NET_DEBT := by decide
  refine h.place ?_ hother ⟨by rw [hself], by rw [hself], by rw [hself]; exact hactive⟩ (by omega) hN hNICR (fun a => ?_)
    hdesc.remove hnicr hpos hchain'
  · rw [htm]
    exact ⟨h.noRewards.L_WSTETH, h.noRewards.L_SIMDebt, h.noRewards.snapshot⟩
  · rw [← hids a, hchain.mem_remove]

theorem Ordered.created {coll debt NICR : ℕ} (h : Ordered s) (hidle : (trove s b).coll = 0 ∧ (trove s b).debt = 0)
    (hdebt : MIN_NET_DEBT ≤ debt) (hN : computeNominalCR coll debt = .ok NICR) (hc : Created s s' b coll debt NICR) :
    Ordered s' := by
  obtain ⟨stake, -, -, htm⟩ := hc.stake
  obtain ⟨nicr, p, n, hnicr, hins⟩ := hc.list
  obtain ⟨ids, hchain, hids, hdesc⟩ := h.list
  obtain ⟨hb, -, hNICR, p', n', us, vs, hpos, hchain'⟩ := SortedTroves.insert_chain hchain hins
  have hother : ∀ a, a ≠ b → trove s' a = trove s a :=
    fun a ha => by rw [trove, htm, createdManager_other _ _ _ _ ha, trove]
  refine h.place ⟨?_, ?_, fun a => ?_⟩ hother (hc.trove_self hidle) (lt_of_lt_of_le (by decide) hdebt) hN hNICR (fun a => ?_) hdesc hnicr hpos
    hchain'
  · rw [htm]
    exact h.noRewards.L_WSTETH
  · rw [htm]
    exact h.noRewards.L_SIMDebt
  · rw [htm]
    simp only [createdManager, h.noRewards.L_WSTETH, h.noRewards.L_SIMDebt]
    by_cases hab : a = b
    · rw [hab, Function.update_self]
    · rw [Function.update_of_ne hab, h.noRewards.snapshot]
  · rw [← hids a]
    exact ⟨fun ha => ⟨ha, fun e => hb (e ▸ ha)⟩, fun ha => ha.1⟩

theorem Ordered.closed {status : Status} (h : Ordered s) (hc : Closed s s' b status) : Ordered s' := by
  obtain ⟨ids, hchain, hids, hdesc⟩ := h.list
  obtain ⟨xs, ys, rfl, hchain'⟩ := SortedTroves.remove_chain hchain hc.list
  obtain ⟨-, hother, hstatus⟩ := hc.troves
  have hkept : ∀ a, (trove s a).status = .active → a ≠ b → Rated s' a ∧ nominal s' a = nominal s a := by
    intro a ha hab
    obtain ⟨i, hi⟩ := hother a hab
    exact (h.rated a ha).congr (by rw [hi]) (by rw [hi])
  have hmem : ∀ a, a ∈ xs ++ ys ↔ (trove s a).status = .active ∧ a ≠ b := by
    intro a
    rw [← hids a, hchain.mem_remove]
  refine ⟨⟨?_, ?_, fun a => ?_⟩, fun a ha => ?_, xs ++ ys, hchain', fun a => ?_, hdesc.remove.congr fun a ha => ?_⟩
  · rw [hc.troveManager]
    exact h.noRewards.L_WSTETH
  · rw [hc.troveManager]
    exact h.noRewards.L_SIMDebt
  · rw [hc.troveManager]
    by_cases hab : a = b
    · simp [closedManager, hab]
    · simp [closedManager, hab, h.noRewards.snapshot]
  · obtain ⟨hactive, hab⟩ := (hstatus a).1 ha
    exact (hkept a hactive hab).1
  · rw [hmem, hstatus]
  · obtain ⟨hactive, hab⟩ := (hmem a).1 ha
    exact (hkept a hactive hab).2

/-- every kind of move but a redistribution keeps the order -/
theorem move_ordered {plan : Plan} (hplan : plan.redistributed = 0) (hreg : Registry s) (h : Ordered s)
    (hm : Move c s₀ plan s s') : Ordered s' := by
  cases hm with
  | frame hf =>
    obtain ⟨r, t, ht⟩ := hf.troveManager
    refine h.congr (fun a => ?_) ?_ hf.sortedTroves
    · rw [trove, ht]
      exact ⟨rfl, rfl, rfl⟩
    · rw [ht]
      exact ⟨h.noRewards.L_WSTETH, h.noRewards.L_SIMDebt, h.noRewards.snapshot⟩
  | settle b pw pd hhas hpw hpd hmoved =>
    simp only [hasPendingRewards, decide_eq_true_eq, h.noRewards.L_WSTETH] at hhas
    exact absurd hhas.2 (Nat.not_lt_zero _)
  | edit b coll debt hstake harrived hdebt he => exact h.edited hdebt he
  | create b coll debt NICR hstake hstart hnew hdebt hN hc =>
    obtain ⟨hcoll0, hdebt0, -⟩ := hreg.idle b hnew
    exact h.created ⟨hcoll0, hdebt0⟩ hdebt hN hc
  | close b status hc => exact h.closed hc
  | liquidate b t ht hmoved hc =>
    obtain ⟨htm, hlist⟩ := hmoved.same
    refine Ordered.closed (h.congr (fun a => ?_) (htm ▸ h.noRewards) hlist) hc
    rw [trove, htm]
    exact ⟨rfl, rfl, rfl⟩
  | redistribute coll hpos hred => exact absurd hplan hpos
  | snapshot coll hopen hs =>
    obtain ⟨-, rfl⟩ := updateSystemSnapshots_ok hs
    exact h.congr (fun a => ⟨rfl, rfl, rfl⟩) ⟨h.noRewards.L_WSTETH, h.noRewards.L_SIMDebt, h.noRewards.snapshot⟩ rfl

/-! ## Runs -/

/-- the Stability Pool covers all debt that a transaction liquidates -/
def RedistributesNothing (c : Config) (s : System) (tx : Tx c) : Prop := (plan c s tx).redistributed = 0

instance (c : Config) (s : System) (tx : Tx c) : Decidable (RedistributesNothing c s tx) :=
  inferInstanceAs (Decidable ((plan c s tx).redistributed = 0))

theorem exec_ordered {tx : Tx c} (hplan : RedistributesNothing c s tx) (h : Registry s ∧ Ordered s)
    (hexec : exec c s tx = .ok s') : Registry s' ∧ Ordered s' :=
  exec_keeps (fun _ _ => move_ordered hplan) h hexec

theorem init_ordered (c : Config) : Ordered (init c) where
  noRewards := ⟨rfl, rfl, fun _ => rfl⟩
  rated := fun a ha => by simp [trove, init] at ha
  list := ⟨[], SortedTroves.init_chain _, fun a => by simp [trove, init], .nil⟩

theorem reached_ordered (calls : List (Tx c)) (h : AlongOk (exec c) (RedistributesNothing c) (init c) calls) :
    Ordered (reached c calls) :=
  (run_inv_ok (exec c) (fun _ _ _ h hP => exec_ordered hP h) _ calls ⟨init_registry c, init_ordered c⟩ h).2

/-- **The list is in order** after any calls of which the successful ones redistribute nothing: of two neighbours the first
has at least the ratio of the second. -/
theorem list_ordered (c : Config) (calls : List (Tx c)) (h : AlongOk (exec c) (RedistributesNothing c) (init c) calls)
    (prev next : Address) :
    let s := reached c calls
    SortedTroves.contains s.sortedTroves prev = true → SortedTroves.getNext s.sortedTroves prev = next → next ≠ 0 →
      ∃ x y, getNominalICR s prev = .ok x ∧ getNominalICR s next = .ok y ∧ y ≤ x := by
  intro s hprev hnext h0
  have ho : Ordered s := reached_ordered calls h
  obtain ⟨ids, hchain, hids, hdesc⟩ := ho.list
  obtain ⟨hmem, hmem', hle⟩ := hchain.next_le hdesc hprev hnext h0
  exact ⟨nominal s prev, nominal s next, (ho.rated prev ((hids prev).1 hmem)).getNominalICR ho.noRewards,
    (ho.rated next ((hids next).1 hmem')).getNominalICR ho.noRewards, hle⟩

/-- Bob opens a trove with 1 wstETH and 1000 SIM, Alice one a thousand times smaller, Carol one with a lower ratio -/
def sameRatio : List (Tx exampleConfig) :=
  funded alice ++ funded bob ++ funded carol ++
    [atPrice (2000 * 10 ^ 18) bob (.openTrove (10 ^ 18) (10 ^ 18) (1000 * 10 ^ 18) 0 0),
      atPrice (2000 * 10 ^ 18) alice (.openTrove (10 ^ 15) (10 ^ 18) (10 ^ 18) 0 0),
      atPrice (2000 * 10 ^ 18) carol (.openTrove (101 * 10 ^ 16) (10 ^ 18) (1300 * 10 ^ 18) 0 0)]

theorem list_ordered_sameRatio :
    SortedTroves.getNext (reached exampleConfig sameRatio).sortedTroves 1 = 2 ∧
      ∃ x y, getNominalICR (reached exampleConfig sameRatio) 1 = .ok x ∧
        getNominalICR (reached exampleConfig sameRatio) 2 = .ok y ∧ y ≤ x :=
  ⟨by decide +kernel,
    list_ordered exampleConfig sameRatio (by decide +kernel) 1 2 (by decide +kernel) (by decide +kernel) (by decide)⟩

/-- **A redistribution breaks the order**: when Carol is liquidated at a price of 1400, Alice loses a fraction of a wei to
rounding, and her trove is before Bob's with the lower ratio. -/
theorem redistribution_disorders :
    let s := reached exampleConfig (sameRatio ++ [atPrice (1400 * 10 ^ 18) bob (.liquidate 3)])
    SortedTroves.contains s.sortedTroves 1 = true ∧ SortedTroves.getNext s.sortedTroves 1 = 2 ∧
      getNominalICR s 1 = .ok 86743596230062164 ∧ getNominalICR s 2 = .ok 86743596230062205 := by
  decide +kernel

end SimContracts.Protocol
