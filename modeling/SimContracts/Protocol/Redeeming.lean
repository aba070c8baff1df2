/-
What a redemption does. The walk goes up the list from the first trove with a ratio of at least MCR, applies the rewards of each
trove it comes to and takes a lot from it: all of the debt, and the trove is closed, or the rest of the amount, and the trove
keeps at least MIN_NET_DEBT; a partial redemption with an outdated hint is cancelled after the rewards were applied. The tokens
are paid once at the end, from the sums of the lots.

`LoopEffects` says so of the walk, from the state it is in, by induction on the number of troves; a trove that was passed is
not touched again.

Results:
  redemption_effects   the troves, the pools, the tokens and the surplus after a redemption
-/
import SimContracts.Protocol.Hints
import SimContracts.Protocol.Modes

namespace SimContracts.Protocol

open Solidity TroveManager BorrowerOperations

variable {c : Config} {env : Env} {s s' s₁ : System} {a b sender : Address} {price amount n lot : ℕ} {xs : List Address}
  {hint : PartialRedemptionHint} {t t' : RedemptionTotals} {K : List (Address × ℕ)} {cancelled : List Address}

/-! ## One trove -/

/-- the rewards that are applied to the debt of a trove when the walk comes to it -/
def appliedDebt (s : System) (a : Address) : ℕ := settledDebt s a - (trove s a).debt

/-- a trove that was paid off: it is closed, and the collateral that is left is credited to its owner -/
structure PaidOff (s s' : System) (price : ℕ) (a : Address) (lot : ℕ) : Prop where
  lot : lot = settledDebt s a
  status : (trove s' a).status = .closedByRedemption
  debt : (trove s' a).debt = 0
  surplus : s'.collSurplusPool.balances a =
    s.collSurplusPool.balances a + (settledColl s a - settledDebt s a * DECIMAL_PRECISION / price)

/-- a trove that was paid in part: it stays active with the rest of its debt, which is enough -/
structure PaidInPart (s s' : System) (price : ℕ) (a : Address) (lot : ℕ) : Prop where
  debt : (trove s' a).debt + lot = settledDebt s a
  status : (trove s' a).status = .active
  coll : (trove s' a).coll = settledColl s a - lot * DECIMAL_PRECISION / price
  min : MIN_NET_DEBT ≤ (trove s' a).debt
  surplus : s'.collSurplusPool.balances a = s.collSurplusPool.balances a

/-- the trove owes and holds as much as before, with its rewards -/
def KeepsEntire (s s' : System) (a : Address) : Prop :=
  ∀ e, getEntireDebtAndColl s a = .ok e →
    ∃ e', getEntireDebtAndColl s' a = .ok e' ∧ e'.debt = e.debt ∧ e'.coll = e.coll

theorem TroveManager.SamePosition.keepsEntire (h : SamePosition s s' a) : KeepsEntire s s' a := by
  intro e he
  exact ⟨e, h.getEntireDebtAndColl.trans he, rfl, rfl⟩

theorem TroveManager.SamePosition.appliedDebt (h : SamePosition s s' a) :
    Protocol.appliedDebt s' a = Protocol.appliedDebt s a := by
  rw [Protocol.appliedDebt, h.settledDebt, h.fields.2.1, Protocol.appliedDebt]

/-- a trove that has not been touched yet can be measured in either state -/
theorem PaidOff.of_same (h : PaidOff s₁ s' price a lot) (hsame : SamePosition s s₁ a)
    (hsurplus : s₁.collSurplusPool.balances a = s.collSurplusPool.balances a) : PaidOff s s' price a lot := by
  refine ⟨h.lot.trans hsame.settledDebt, h.status, h.debt, ?_⟩
  rw [h.surplus, hsurplus, hsame.settledColl, hsame.settledDebt]

theorem PaidInPart.of_same (h : PaidInPart s₁ s' price a lot) (hsame : SamePosition s s₁ a)
    (hsurplus : s₁.collSurplusPool.balances a = s.collSurplusPool.balances a) : PaidInPart s s' price a lot := by
  refine ⟨h.debt.trans hsame.settledDebt, h.status, ?_, h.min, h.surplus.trans hsurplus⟩
  rw [h.coll, hsame.settledColl]

/-- nor is a trove that was paid off touched later -/
theorem PaidOff.later (h : PaidOff s s₁ price a lot) (hsame : SamePosition s₁ s' a)
    (hsurplus : s'.collSurplusPool.balances a = s₁.collSurplusPool.balances a) : PaidOff s s' price a lot := by
  obtain ⟨-, hdebt, -, hstatus⟩ := hsame.fields
  exact ⟨h.lot, hstatus.trans h.status, hdebt.trans h.debt, hsurplus.trans h.surplus⟩

theorem PaidInPart.later (h : PaidInPart s s₁ price a lot) (hsame : SamePosition s₁ s' a)
    (hsurplus : s'.collSurplusPool.balances a = s₁.collSurplusPool.balances a) : PaidInPart s s' price a lot := by
  obtain ⟨hcoll, hdebt, -, hstatus⟩ := hsame.fields
  refine ⟨?_, hstatus.trans h.status, hcoll.trans h.coll, ?_, hsurplus.trans h.surplus⟩
  · rw [hdebt]
    exact h.debt
  · rw [hdebt]
    exact h.min

theorem BorrowerOperations.Edited.others {coll debt : ℕ} (h : Edited s s' b coll debt) (ha : a ≠ b) : SamePosition s s' a := by
  obtain ⟨stake, -, -, htm⟩ := h.stake
  refine ⟨by rw [htm], by rw [htm], by rw [htm], (s.troveManager.Troves a).arrayIndex, ?_⟩
  rw [htm]
  exact Function.update_of_ne ha _ _

/-! ## The pools during the walk -/

/-- rewards move from the Default Pool to the Active Pool; no token of an account outside the pools moves -/
structure Walked (c : Config) (s s' : System) (applied : ℕ) : Prop where
  active : s'.activePool.SIMDebt = s.activePool.SIMDebt + applied
  default : s'.defaultPool.SIMDebt + applied = s.defaultPool.SIMDebt
  sim : s'.sim = s.sim
  wsteth : ∀ a, a ∉ c.pools → s'.wsteth.balanceOf a = s.wsteth.balanceOf a

theorem Walked.trans {x y : ℕ} (h : Walked c s s₁ x) (h' : Walked c s₁ s' y) : Walked c s s' (x + y) := by
  refine ⟨?_, ?_, h'.sim.trans h.sim, fun a ha => (h'.wsteth a ha).trans (h.wsteth a ha)⟩
  · rw [h'.active, h.active, Nat.add_assoc]
  · rw [← h.default, ← h'.default]
    omega

theorem settlePendingRewards_walked (h : settlePendingRewards c s b = .ok s') :
    Walked c s s' (appliedDebt s b) ∧ s'.collSurplusPool = s.collSurplusPool := by
  have hdebt := (settlePendingRewards_settled h).debt
  rcases settlePendingRewards_ok h with ⟨hno, rfl⟩ | ⟨hhas, pw, pd, -, hpd, hmoved⟩
  · have hzero : appliedDebt s' b = 0 := by
      rw [appliedDebt, ← hdebt, Nat.sub_self]
    rw [hzero]
    exact ⟨⟨rfl, rfl, rfl, fun _ _ => rfl⟩, rfl⟩
  · have hle := hmoved.debt_le
    obtain ⟨u, hu, rfl⟩ := hmoved.state
    have happlied : appliedDebt s b = pd := by
      rw [appliedDebt, ← hdebt]
      simp only [trove, settledManager, Function.update_self]
      omega
    rw [happlied]
    refine ⟨⟨rfl, Nat.sub_add_cancel hle, rfl, fun a ha => ?_⟩, rfl⟩
    simp only [Config.pools, List.mem_cons, List.not_mem_nil, or_false, not_or] at ha
    rw [ERC20.transfer_other hu ha.2.1, if_neg ha.1]
    rfl

theorem redeemCloseTrove_walked (h : redeemCloseTrove c s b amount = .ok s') :
    Walked c s s' 0 ∧ s'.collSurplusPool.balances =
      Function.update s.collSurplusPool.balances b (s.collSurplusPool.balances b + amount) := by
  have hsim := redeemCloseTrove_sim h
  obtain ⟨s₁, h1, h⟩ := bind_ok.1 h
  obtain rfl := CollSurplusPool.accountSurplus_ok h1
  obtain ⟨-, u, hu, hn⟩ := ActivePool.sendWSTETH_ok h
  refine ⟨⟨?_, ?_, hsim, fun a ha => ?_⟩, ?_⟩
  · rw [hn.activePool]
    rfl
  · rw [hn.defaultPool]
    rfl
  · simp only [Config.pools, List.mem_cons, List.not_mem_nil, or_false, not_or] at ha
    rw [hn.wsteth]
    rw [ERC20.transfer_other hu ha.1, if_neg ha.2.2.2]
    rfl
  · rw [hn.collSurplusPool]

/-- the records alone changed: the pools are as before -/
theorem walked_of_rest (h : s' = { s with troveManager := s'.troveManager, sortedTroves := s'.sortedTroves }) :
    Walked c s s' 0 ∧ s'.collSurplusPool = s.collSurplusPool := by
  rw [h]
  exact ⟨⟨rfl, rfl, rfl, fun _ _ => rfl⟩, rfl⟩

/-- applying the rewards of a trove makes them part of its record -/
theorem settlePendingRewards_keepsEntire (h : settlePendingRewards c s b = .ok s') : KeepsEntire s s' b := by
  rcases settlePendingRewards_ok h with ⟨-, rfl⟩ | ⟨-, pw, pd, hpw, hpd, hmoved⟩
  · exact (SamePosition.refl s' b).keepsEntire
  · intro e he
    obtain ⟨htm, -⟩ := hmoved.same
    simp only [getEntireDebtAndColl, hpd, hpw, ok_bind, uadd_bind, pure_ok] at he
    obtain ⟨hdebt, hcoll, rfl⟩ := he
    have hnothing : getPendingSIMDebtReward s' b = .ok 0 ∧ getPendingWSTETHReward s' b = .ok 0 := by
      simp [getPendingSIMDebtReward, getPendingWSTETHReward, pendingReward, htm, settledManager, usub, Bind.bind, Except.bind]
    have hrecord : (trove s' b).debt = (trove s b).debt + pd ∧ (trove s' b).coll = (trove s b).coll + pw := by
      simp [trove, htm, settledManager]
    refine ⟨⟨(trove s b).debt + pd, (trove s b).coll + pw, 0, 0⟩, ?_, rfl, rfl⟩
    simp only [getEntireDebtAndColl, hnothing, hrecord, ok_bind, uadd_bind, pure_ok, Nat.add_zero]
    exact ⟨hdebt, hcoll, trivial⟩

/-! ## The walk -/

/-- what the walk takes between two states: the lots of the troves of `K`, and a partial redemption that was cancelled -/
structure LoopEffects (c : Config) (price : ℕ) (nodes : List Address) (t t' : RedemptionTotals) (K : List (Address × ℕ))
    (cancelled : List Address) : Prop where
  walk : K.map Prod.fst ++ cancelled <+: nodes
  paidOff : ∀ x ∈ K.dropLast, PaidOff t.s t'.s price x.1 x.2
  last : ∀ x ∈ K, PaidOff t.s t'.s price x.1 x.2 ∨ PaidInPart t.s t'.s price x.1 x.2
  stopped : ∀ a ∈ cancelled, KeepsEntire t.s t'.s a
  others : ∀ a, a ∉ K.map Prod.fst → a ∉ cancelled → SamePosition t.s t'.s a
  surplus : ∀ a, a ∉ K.map Prod.fst → t'.s.collSurplusPool.balances a = t.s.collSurplusPool.balances a
  pools : Walked c t.s t'.s ((K.map Prod.fst ++ cancelled).map (appliedDebt t.s)).sum
  redeemed : t'.totalSIMToRedeem = t.totalSIMToRedeem + (K.map Prod.snd).sum
  remaining : t'.remainingSIM + (K.map Prod.snd).sum = t.remainingSIM
  drawn : t'.totalWSTETHDrawn = t.totalWSTETHDrawn + (K.map fun x => x.2 * DECIMAL_PRECISION / price).sum

theorem LoopEffects.nothing (t : RedemptionTotals) (nodes : List Address) : LoopEffects c price nodes t t [] [] where
  walk := List.nil_prefix
  paidOff := nofun
  last := nofun
  stopped := nofun
  others := fun a _ _ => .refl t.s a
  surplus := fun _ _ => rfl
  pools := ⟨rfl, rfl, rfl, fun _ _ => rfl⟩
  redeemed := rfl
  remaining := rfl
  drawn := rfl

theorem mem_dropLast_cons {α : Type} {x y : α} {l : List α} (h : x ∈ (y :: l).dropLast) : x = y ∨ x ∈ l.dropLast := by
  cases l with
  | nil => cases h
  | cons z l => exact List.mem_cons.1 h

/-- a trove that is paid off, and the walk above it -/
theorem LoopEffects.cons {t₁ : RedemptionTotals} {nodes : List Address} (hpaid : PaidOff t.s t₁.s price b lot)
    (hothers : ∀ a, a ≠ b → SamePosition t.s t₁.s a)
    (hsurplus : ∀ a, a ≠ b → t₁.s.collSurplusPool.balances a = t.s.collSurplusPool.balances a)
    (hpools : Walked c t.s t₁.s (appliedDebt t.s b)) (hredeemed : t₁.totalSIMToRedeem = t.totalSIMToRedeem + lot)
    (hremaining : t₁.remainingSIM + lot = t.remainingSIM)
    (hdrawn : t₁.totalWSTETHDrawn = t.totalWSTETHDrawn + lot * DECIMAL_PRECISION / price)
    (hb : b ∉ nodes) (h : LoopEffects c price nodes t₁ t' K cancelled) :
    LoopEffects c price (b :: nodes) t t' ((b, lot) :: K) cancelled := by
  have hvisited : ∀ a ∈ K.map Prod.fst ++ cancelled, a ≠ b := fun a ha e => hb (e ▸ h.walk.subset ha)
  have hmem : ∀ x ∈ K, x.1 ≠ b := fun x hx => hvisited x.1 (List.mem_append_left _ (List.mem_map_of_mem hx))
  have hbK : b ∉ K.map Prod.fst := fun hmem => hvisited b (List.mem_append_left _ hmem) rfl
  have hbc : b ∉ cancelled := fun hmem => hvisited b (List.mem_append_right _ hmem) rfl
  have hlater : PaidOff t.s t'.s price b lot := hpaid.later (h.others b hbK hbc) (h.surplus b hbK)
  refine ⟨?_, ?_, ?_, ?_, ?_, ?_, ?_, ?_, ?_, ?_⟩
  · exact List.prefix_cons_inj b |>.2 h.walk
  · intro x hx
    rcases mem_dropLast_cons hx with rfl | hx
    · exact hlater
    · have hne := hmem x (List.mem_of_mem_dropLast hx)
      exact (h.paidOff x hx).of_same (hothers _ hne) (hsurplus _ hne)
  · intro x hx
    rcases List.mem_cons.1 hx with rfl | hx
    · exact .inl hlater
    · have hne := hmem x hx
      exact (h.last x hx).imp (fun h => h.of_same (hothers _ hne) (hsurplus _ hne)) fun h =>
        h.of_same (hothers _ hne) (hsurplus _ hne)
  · intro a ha e he
    have hsame := hothers a (hvisited a (List.mem_append_right _ ha))
    exact h.stopped a ha e (hsame.getEntireDebtAndColl.trans he)
  · intro a ha hac
    rw [List.map_cons, List.mem_cons, not_or] at ha
    exact (hothers a ha.1).trans (h.others a ha.2 hac)
  · intro a ha
    rw [List.map_cons, List.mem_cons, not_or] at ha
    exact (h.surplus a ha.2).trans (hsurplus a ha.1)
  · have happlied : (K.map Prod.fst ++ cancelled).map (appliedDebt t₁.s) = (K.map Prod.fst ++ cancelled).map (appliedDebt t.s) :=
      List.map_congr_left fun a ha => (hothers a (hvisited a ha)).appliedDebt
    have hrest := h.pools
    rw [happlied] at hrest
    exact hpools.trans hrest
  · rw [h.redeemed, hredeemed, List.map_cons, List.sum_cons, Nat.add_assoc]
  · rw [List.map_cons, List.sum_cons, ← hremaining, ← h.remaining]
    omega
  · rw [h.drawn, hdrawn, List.map_cons, List.sum_cons, Nat.add_assoc]

/-- a trove whose partial redemption is cancelled keeps what it is worth -/
theorem LoopEffects.cancel (nodes : List Address) (hkeeps : KeepsEntire t.s t'.s b)
    (hothers : ∀ a, a ≠ b → SamePosition t.s t'.s a) (hsurplus : t'.s.collSurplusPool = t.s.collSurplusPool)
    (hpools : Walked c t.s t'.s (appliedDebt t.s b)) (hredeemed : t'.totalSIMToRedeem = t.totalSIMToRedeem)
    (hremaining : t'.remainingSIM = t.remainingSIM) (hdrawn : t'.totalWSTETHDrawn = t.totalWSTETHDrawn) :
    LoopEffects c price (b :: nodes) t t' [] [b] := by
  refine ⟨?_, nofun, nofun, ?_, ?_, ?_, hpools, hredeemed, hremaining, hdrawn⟩
  · exact List.prefix_cons_inj b |>.2 List.nil_prefix
  · intro a ha
    rw [List.mem_singleton.1 ha]
    exact hkeeps
  · intro a _ ha
    exact hothers a fun e => ha (List.mem_singleton.2 e)
  · intro a _
    rw [hsurplus]

/-- the last trove, which keeps part of its debt -/
theorem LoopEffects.part (nodes : List Address) (hpart : PaidInPart t.s t'.s price b lot)
    (hothers : ∀ a, a ≠ b → SamePosition t.s t'.s a) (hsurplus : t'.s.collSurplusPool = t.s.collSurplusPool)
    (hpools : Walked c t.s t'.s (appliedDebt t.s b)) (hredeemed : t'.totalSIMToRedeem = t.totalSIMToRedeem + lot)
    (hremaining : t'.remainingSIM + lot = t.remainingSIM)
    (hdrawn : t'.totalWSTETHDrawn = t.totalWSTETHDrawn + lot * DECIMAL_PRECISION / price) :
    LoopEffects c price (b :: nodes) t t' [(b, lot)] [] := by
  refine ⟨?_, nofun, ?_, nofun, ?_, ?_, hpools, hredeemed, hremaining, hdrawn⟩
  · exact List.prefix_cons_inj b |>.2 List.nil_prefix
  · intro x hx
    rw [List.mem_singleton.1 hx]
    exact .inr hpart
  · intro a ha _
    exact hothers a fun e => ha (List.mem_singleton.2 e)
  · intro a _
    rw [hsurplus]

theorem redeemLoop_effects (hw : Walk t.s t.s xs) (hactive : ∀ a ∈ xs, (trove t.s a).status = .active)
   (h : redeemLoop c price hint n (xs.getLastD 0) t = .ok t') : ∃ K cancelled, LoopEffects c price xs.reverse t t' K cancelled := by
  induction n generalizing xs t with
  | zero =>
    cases h
    exact ⟨[], [], .nothing _ _⟩
  | succ n ih =>
    rcases xs.eq_nil_or_concat with rfl | ⟨us, b, rfl⟩
    · cases (redeemLoop_done (.inl rfl)).symm.trans h
      exact ⟨[], [], .nothing _ _⟩
    simp only [List.concat_eq_append] at hw hactive h ⊢
    rw [List.getLastD_concat] at h
    by_cases hrem : t.remainingSIM = 0
    · rw [redeemLoop_done (.inr hrem)] at h
      cases h
      exact ⟨[], [], .nothing _ _⟩
    have hb : b ≠ 0 := by
      obtain ⟨ys, hc⟩ := hw.now
      exact hc.mem_ne_zero (by simp)
    have hnotMem : b ∉ us.reverse := fun hmem => hw.notMem (List.mem_reverse.1 hmem)
    rw [List.reverse_append, List.reverse_singleton, List.singleton_append]
    obtain ⟨s₁, h1, hstep⟩ := redeemLoop_step hw hb hrem h
    have hsettled := settlePendingRewards_settled h1
    obtain ⟨happlied, hkept⟩ := settlePendingRewards_walked h1
    cases hstep with
    | paid s₂ s₃ hle hclosed hsurplus hloop =>
      have hframe := redeemCloseTrove_frame hsurplus
      obtain ⟨hmoved, hbalances⟩ := redeemCloseTrove_walked hsurplus
      have hclosedPools := walked_of_rest (c := c) hclosed.rest
      rw [hclosedPools.2, hkept] at hbalances
      have hgone := hsettled.gone hclosed.gone
      obtain ⟨zs, hnow⟩ := ((hw.pass hgone).frame hframe).now
      have hothers : ∀ a, a ≠ b → SamePosition t.s s₃ a := fun a ha => (hgone.others a ha).trans (.of_frame hframe)
      have hactive₃ : ∀ a ∈ us, (trove s₃ a).status = .active := by
        intro a ha
        have hab : a ≠ b := fun e => hw.notMem (e ▸ ha)
        exact (hothers a hab).fields.2.2.2.trans (hactive a (List.mem_append_left _ ha))
      obtain ⟨K, cancelled, hrest⟩ := ih (.begin_ hnow) hactive₃ hloop
      refine ⟨(b, settledDebt t.s b) :: K, cancelled, .cons ?_ hothers ?_ ?_ rfl ?_ rfl hnotMem hrest⟩
      · obtain ⟨⟨i, hi⟩, -⟩ := hclosed.troves
        obtain ⟨-, hdebt, -, hstatus⟩ := (SamePosition.of_frame (a := b) hframe).fields
        rw [hi] at hdebt hstatus
        exact ⟨rfl, hstatus, hdebt, by rw [hbalances, Function.update_self]⟩
      · intro a ha
        rw [hbalances, Function.update_of_ne ha]
      · exact (happlied.trans hclosedPools.1).trans hmoved
      · exact Nat.sub_add_cancel hle
    | cancelled NICR hlt hNICR hcancel ht =>
      rw [ht]
      exact ⟨[], [b], .cancel _ (settlePendingRewards_keepsEntire h1) hsettled.others hkept happlied rfl rfl rfl⟩
    | left_ s₂ hlt hNICR hmin hedited ht =>
      rw [ht]
      have heditedPools := walked_of_rest (c := c) hedited.rest
      obtain ⟨⟨stake, -, hedit⟩, -⟩ := hedited.troves
      have hpart : PaidInPart t.s s₂ price b t.remainingSIM := by
        have hactive : (trove s₁ b).status = .active := hsettled.arrived.status.trans (hactive b (by simp))
        refine ⟨?_, ?_, ?_, ?_, by rw [heditedPools.2, hkept]⟩ <;> rw [hedit]
        · exact Nat.sub_add_cancel hlt.le
        · exact hactive
        · exact hmin
      have hothers : ∀ a, a ≠ b → SamePosition t.s s₂ a := fun a ha => (hsettled.others a ha).trans (hedited.others ha)
      exact ⟨[(b, t.remainingSIM)], [], .part _ hpart hothers (heditedPools.2.trans hkept) (happlied.trans heditedPools.1)
        rfl (Nat.zero_add _) rfl⟩

/-! ## The first trove -/

theorem findRedeemable_ratio {rounds : ℕ} {user first : Address} (h : findRedeemable s price rounds user = .ok first)
    (h0 : first ≠ 0) : ∃ ICR, getCurrentICR s first price = .ok ICR ∧ MCR ≤ ICR := by
  induction rounds generalizing user with
  | zero => cases h
  | succ rounds ih =>
    unfold findRedeemable at h
    by_cases hend : user = 0
    · rw [if_pos hend] at h
      cases h
      exact absurd rfl h0
    rw [if_neg hend] at h
    obtain ⟨ICR, hICR, h⟩ := bind_ok.1 h
    split_ifs at h with hlow
    · exact ih h
    · cases h
      exact ⟨ICR, hICR, Nat.not_lt.1 hlow⟩

/-- with a valid hint or without one, a redemption starts at a trove with a ratio of at least MCR -/
theorem firstBorrower_ratio {first user : Address} (h : firstBorrower s price first = .ok user) (h0 : user ≠ 0) :
    ∃ ICR, getCurrentICR s user price = .ok ICR ∧ MCR ≤ ICR := by
  obtain ⟨valid, hvalid, h⟩ := bind_ok.1 h
  cases valid with
  | false => exact findRedeemable_ratio h h0
  | true =>
    cases h
    unfold isValidFirstRedemptionHint at hvalid
    split_ifs at hvalid with hout
    · cases hvalid
    · obtain ⟨ICR, hICR, hvalid⟩ := bind_ok.1 hvalid
      by_cases hlow : ICR < MCR
      · rw [if_pos hlow] at hvalid
        cases hvalid
      · exact ⟨ICR, hICR, Nat.not_lt.1 hlow⟩

/-- it passes only open troves -/
theorem Walk.active (hw : Walk s s xs) (hreg : Registry s) : ∀ a ∈ xs, (trove s a).status = .active := by
  intro a ha
  obtain ⟨ids, hc, hids⟩ := hreg.list
  obtain ⟨zs, hstart⟩ := hw.start
  rw [← hids, ← hc.contains_iff, hstart.contains_iff]
  exact List.mem_append_left _ ha

/-- on an ordered list the troves above have one, too -/
theorem Walk.ratios (hw : Walk s s xs) (hord : OrderedByICR s price)
    (hfirst : xs.getLastD 0 ≠ 0 → ∃ ICR, getCurrentICR s (xs.getLastD 0) price = .ok ICR ∧ MCR ≤ ICR) :
    ∀ a ∈ xs, ∃ ICR, getCurrentICR s a price = .ok ICR ∧ MCR ≤ ICR := by
  rcases xs.eq_nil_or_concat with rfl | ⟨us, b, rfl⟩
  · exact nofun
  simp only [List.concat_eq_append] at hw hfirst ⊢
  rw [List.getLastD_concat] at hfirst
  obtain ⟨zs, hc⟩ := hw.start
  have hb : b ≠ 0 := hc.mem_ne_zero (by simp)
  obtain ⟨ICR, hICR, hMCR⟩ := hfirst hb
  rw [List.append_assoc, List.singleton_append] at hc
  intro a ha
  rcases List.mem_append.1 ha with ha | ha
  · obtain ⟨x, y, hx, hy, hle⟩ := hord.above hc a ha
    rw [hICR] at hy
    cases hy
    exact ⟨x, hx, hMCR.trans hle⟩
  · rw [List.mem_singleton.1 ha]
    exact ⟨ICR, hICR, hMCR⟩

/-! ## The payments -/

/-- the fee and the rest of what was drawn are sent, the SIM is burned, the debt is gone -/
structure RedemptionPaid (c : Config) (s s' : System) (sender : Address) (SIM WSTETH : ℕ) : Prop where
  burned : s.sim.burn sender SIM = .ok s'.sim
  activeDebt : s'.activePool.SIMDebt + SIM = s.activePool.SIMDebt
  wsteth : ∃ fee toRedeemer, fee + toRedeemer = WSTETH ∧ ∀ a, a ∉ c.pools → s'.wsteth.balanceOf a =
    s.wsteth.balanceOf a + (if a = c.wstETHVeDistributor then fee else 0) + if a = sender then toRedeemer else 0
  surplus : s'.collSurplusPool.balances = s.collSurplusPool.balances

theorem finishRedemption_paid {maxFee supply : ℕ} (h : finishRedemption c env sender price maxFee supply t = .ok s') :
    RedemptionPaid c t.s s' sender t.totalSIMToRedeem t.totalWSTETHDrawn := by
  have hburned := finishRedemption_burns h
  obtain ⟨fee, s₁, s₂, s₃, s₄, hs⟩ := finishRedemption_ok h
  obtain ⟨r, time, rfl⟩ := hs.rate
  obtain ⟨-, w, hw, hn⟩ := ActivePool.sendWSTETH_ok hs.feeSent
  obtain ⟨u, -, rfl⟩ := SIMToken.burn_ok hs.burned
  obtain ⟨hdebt, rfl⟩ := ActivePool.decreaseSIMDebt_ok hs.cancelled
  obtain ⟨-, w', hw', hn'⟩ := ActivePool.sendWSTETH_ok hs.paid
  dsimp only at hw' hdebt
  rw [hn.wsteth] at hw'
  rw [hn.activePool] at hdebt
  refine ⟨hburned, ?_, ⟨fee, t.totalWSTETHDrawn - fee, Nat.add_sub_cancel' hs.fee_le, fun a ha => ?_⟩, ?_⟩
  · rw [hn'.activePool]
    dsimp only
    rw [hn.activePool]
    exact Nat.sub_add_cancel hdebt
  · have hactive : a ≠ c.activePool := fun e => ha (by simp [Config.pools, e])
    rw [hn'.wsteth, ERC20.transfer_other hw' hactive, ERC20.transfer_other hw hactive]
  · rw [hn'.collSurplusPool]
    dsimp only
    rw [hn.collSurplusPool]

/-- what a redemption leaves: `K` are the troves it took a lot from, `cancelled` one it only applied the rewards of -/
structure RedemptionEffects (c : Config) (s s' : System) (sender : Address) (price requested : ℕ) (user : Address)
    (K : List (Address × ℕ)) (cancelled : List Address) : Prop where
  walk : K.map Prod.fst ++ cancelled = lastNodes s.sortedTroves (K.length + cancelled.length) user
  ratio : ∀ x ∈ K, ∃ ICR, getCurrentICR s x.1 price = .ok ICR ∧ MCR ≤ ICR
  lot : ∀ x ∈ K, (trove s' x.1).debt + x.2 = settledDebt s x.1
  burned : s.sim.burn sender (K.map Prod.snd).sum = .ok s'.sim
  burned_le : (K.map Prod.snd).sum ≤ requested
  activeDebt : s'.activePool.SIMDebt + (K.map Prod.snd).sum =
    s.activePool.SIMDebt + ((K.map Prod.fst ++ cancelled).map (appliedDebt s)).sum
  paidOff : ∀ x ∈ K.dropLast, PaidOff s s' price x.1 x.2
  last : ∀ x ∈ K, PaidOff s s' price x.1 x.2 ∨ PaidInPart s s' price x.1 x.2
  wsteth : ∃ fee toRedeemer, fee + toRedeemer = (K.map fun x => x.2 * DECIMAL_PRECISION / price).sum ∧
    ∀ a, a ∉ c.pools → s'.wsteth.balanceOf a =
      s.wsteth.balanceOf a + (if a = c.wstETHVeDistributor then fee else 0) + if a = sender then toRedeemer else 0
  others : ∀ a, a ∉ K.map Prod.fst → KeepsEntire s s' a
  untouched : ∀ a, a ∉ K.map Prod.fst → a ∉ cancelled → getEntireDebtAndColl s' a = getEntireDebtAndColl s a

/-- **What a redemption does.** From a reachable state whose list is ordered by the ratios at the price. -/
theorem redemption_effects (c : Config) (calls : List (Tx c)) (env : Env) (sender : Account c) (args : RedeemArgs) (price : ℕ)
    (hprice : env.fetchPrice = .ok price) (hord : OrderedByICR (reached c calls) price) (s' : System)
    (h : exec c (reached c calls) ⟨env, sender, .redeemCollateral args⟩ = .ok s') :
    ∃ user K cancelled, firstBorrower (reached c calls) price args.firstRedemptionHint = .ok user ∧
      RedemptionEffects c (reached c calls) s' sender.address price args.SIMamount user K cancelled := by
  generalize hs : reached c calls = s at *
  have hreg : Registry s := hs ▸ reached_registry calls
  obtain ⟨ids, hc, -⟩ := hreg.list
  obtain ⟨price', supply, user, t, hsteps⟩ := redeemCollateral_ok h
  cases hprice.symm.trans hsteps.fetched
  obtain ⟨xs, hw, rfl⟩ := exists_walk hc (firstBorrower_mem hc hsteps.first)
  obtain ⟨zs, hstart⟩ := hw.start
  have hactive := hw.active hreg
  obtain ⟨K, cancelled, he⟩ := redeemLoop_effects hw hactive hsteps.loop
  have hdefault : sender.address ≠ c.defaultPool := fun e => sender.notMem_pools (by simp [Config.pools, e])
  have hframe := finishRedemption_frame hdefault hsteps.finish
  obtain ⟨hburned, hdebt, hwsteth, hsurplus⟩ := finishRedemption_paid hsteps.finish
  have hredeemed : t.totalSIMToRedeem = (K.map Prod.snd).sum := he.redeemed.trans (Nat.zero_add _)
  have hdrawn : t.totalWSTETHDrawn = (K.map fun x => x.2 * DECIMAL_PRECISION / price).sum := he.drawn.trans (Nat.zero_add _)
  have hsum : t.remainingSIM + (K.map Prod.snd).sum = args.SIMamount := he.remaining
  have hvisited : ∀ x ∈ K, x.1 ∈ xs := fun x hx =>
    List.mem_reverse.1 (he.walk.subset (List.mem_append_left _ (List.mem_map_of_mem hx)))
  have hpaidOff : ∀ x ∈ K, PaidOff s t.s price x.1 x.2 → PaidOff s s' price x.1 x.2 := fun x _ hx =>
    hx.later (.of_frame hframe) (congrFun hsurplus x.1)
  have hlast : ∀ x ∈ K, PaidOff s s' price x.1 x.2 ∨ PaidInPart s s' price x.1 x.2 := fun x hx =>
    (he.last x hx).imp (hpaidOff x hx) fun h => h.later (.of_frame hframe) (congrFun hsurplus x.1)
  refine ⟨xs.getLastD 0, K, cancelled, hsteps.first, ?_, ?_, ?_, ?_, ?_, ?_, ?_, hlast, ?_, ?_, ?_⟩
  · have hprefix := List.prefix_iff_eq_take.1 he.walk
    rwa [List.length_append, List.length_map, ← lastNodes_eq hstart] at hprefix
  · exact fun x hx => hw.ratios hord (firstBorrower_ratio hsteps.first) x.1 (hvisited x hx)
  · intro x hx
    rcases hlast x hx with hoff | hpart
    · rw [hoff.debt, Nat.zero_add, hoff.lot]
    · exact hpart.debt
  · rw [← hredeemed, ← hburned, he.pools.sim]
  · omega
  · rw [← hredeemed, hdebt, he.pools.active]
  · exact fun x hx => hpaidOff x (List.mem_of_mem_dropLast hx) (he.paidOff x hx)
  · obtain ⟨fee, toRedeemer, hfee, hbalance⟩ := hwsteth
    refine ⟨fee, toRedeemer, hfee.trans hdrawn, fun a ha => ?_⟩
    rw [hbalance a ha, he.pools.wsteth a ha]
  · intro a ha
    by_cases hcancelled : a ∈ cancelled
    · intro e hentire
      obtain ⟨e', he', hsame⟩ := he.stopped a hcancelled e hentire
      exact ⟨e', (SamePosition.of_frame hframe).getEntireDebtAndColl.trans he', hsame⟩
    · exact ((he.others a ha hcancelled).trans (.of_frame hframe)).keepsEntire
  · intro a ha hcancelled
    exact ((he.others a ha hcancelled).trans (.of_frame hframe)).getEntireDebtAndColl

/-- Bob redeems what Alice owes -/
def bobRedeems : RedeemArgs := ⟨1005 * 10 ^ 15, 0, ⟨0, 0, 0⟩, 0, 10 ^ 18⟩

theorem redemption_effects_bob :
    ∃ s' user K cancelled,
      exec exampleConfig (reached exampleConfig twoTroves) (atPrice (2000 * 10 ^ 18) bob (.redeemCollateral bobRedeems)) = .ok s' ∧
        RedemptionEffects exampleConfig (reached exampleConfig twoTroves) s' 2 (2000 * 10 ^ 18) (1005 * 10 ^ 15) user K cancelled := by
  have hord : OrderedByICR (reached exampleConfig twoTroves) (2000 * 10 ^ 18) :=
    orderedByICR_of_nodes (reached_registry twoTroves) (by decide +kernel)
  obtain ⟨s', hs'⟩ : ∃ s', exec exampleConfig (reached exampleConfig twoTroves)
      (atPrice (2000 * 10 ^ 18) bob (.redeemCollateral bobRedeems)) = .ok s' := Res.failure_none (by decide +kernel)
  obtain ⟨user, K, cancelled, -, heffects⟩ := redemption_effects exampleConfig twoTroves
    (atPrice (2000 * 10 ^ 18) bob (.redeemCollateral bobRedeems)).env bob bobRedeems (2000 * 10 ^ 18) rfl hord s' hs'
  exact ⟨s', user, K, cancelled, hs', heffects⟩

end SimContracts.Protocol
