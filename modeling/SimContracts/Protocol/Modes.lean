/-
Borrower operations and the mode of the system.

The checks of an operation are made on predicted values: the new ratio of the trove and the new total ratio, with the fee
and the pending rewards in them. `SystemChanged` says that the pools end with exactly the predicted totals. In recovery
mode the total ratio is not checked at all; that it does not fall follows from the checks on the trove's own ratio, with
one unit lost to rounding (`Ratio.le_div_grow`).

Results:
  borrowing_respects_mode   normal mode is not left, and recovery mode is not made worse
-/
import SimContracts.Core.Ratio
import SimContracts.Protocol.Books

namespace SimContracts.Protocol

open Solidity TroveManager BorrowerOperations

variable {c : Config} {env : Env} {s s' s₁ : System} {b sender : Address} {price t amount : ℕ} {x : TroveChange}

/-! ## Totals of the system -/

def systemColl (s : System) : ℕ := s.activePool.WSTETH + s.defaultPool.WSTETH
def systemDebt (s : System) : ℕ := s.activePool.SIMDebt + s.defaultPool.SIMDebt

/-- the total ratio; `getTCR` returns it unless a product overflows -/
def systemRatio (s : System) (price : ℕ) : ℕ :=
  if 0 < systemDebt s then systemColl s * price / systemDebt s else uintMax

theorem getTCR_iff : getTCR s price = .ok t ↔
    systemColl s < 2 ^ 256 ∧ systemDebt s < 2 ^ 256 ∧ computeCR (systemColl s) (systemDebt s) price = .ok t := by
  simp only [getTCR, getEntireSystemColl, getEntireSystemDebt, uadd_bind, systemColl, systemDebt]

theorem getTCR_eq (h : getTCR s price = .ok t) : t = systemRatio s price := computeCR_ok (getTCR_iff.1 h).2.2

theorem checkRecoveryMode_ok {mode : Bool} (h : checkRecoveryMode s price = .ok mode) :
    ∃ t, getTCR s price = .ok t ∧ mode = decide (t < CCR) := by
  obtain ⟨t, ht, h⟩ := bind_ok.1 h
  exact ⟨t, ht, (Except.ok.inj h).symm⟩

theorem changed_lt {y : ℕ} {up : Bool} (h : changed amount t up = .ok y) (hlt : amount < 2 ^ 256) :
    y = after amount t up ∧ y < 2 ^ 256 := by
  unfold changed at h
  split_ifs at h with hup
  · obtain ⟨hlt', rfl⟩ := uadd_ok.1 h
    exact ⟨by simp [after, hup], hlt'⟩
  · obtain ⟨-, rfl⟩ := usub_ok.1 h
    exact ⟨by simp [after, hup], (Nat.sub_le _ _).trans_lt hlt⟩

/-- the pools end with the totals that were predicted -/
structure SystemChanged (s s' : System) (x : TroveChange) : Prop where
  coll : systemColl s' = after (systemColl s) x.collChange x.isCollIncrease
  debt : systemDebt s' = after (systemDebt s) x.debtChange x.isDebtIncrease

/-- the total ratio that was checked is the one after the operation -/
theorem SystemChanged.getTCR (h : SystemChanged s s' x) (hnew : getNewTCRFromTroveChange s x price = .ok t) :
    getTCR s' price = .ok t := by
  simp only [getNewTCRFromTroveChange, getEntireSystemColl, getEntireSystemDebt, uadd_bind] at hnew
  obtain ⟨hcoll, hdebt, hnew⟩ := hnew
  obtain ⟨coll, h1, hnew⟩ := bind_ok.1 hnew
  obtain ⟨debt, h2, hnew⟩ := bind_ok.1 hnew
  obtain ⟨h1, hlt1⟩ := changed_lt h1 hcoll
  obtain ⟨h2, hlt2⟩ := changed_lt h2 hdebt
  have hcoll' : systemColl s' = coll := h.coll.trans h1.symm
  have hdebt' : systemDebt s' = debt := h.debt.trans h2.symm
  rw [getTCR_iff, hcoll', hdebt']
  exact ⟨hlt1, hlt2, hnew⟩

/-- both pools are the same -/
structure SameTotals (s s' : System) : Prop where
  coll : systemColl s' = systemColl s
  debt : systemDebt s' = systemDebt s

theorem SameTotals.of_eq (ha : s'.activePool = s.activePool) (hd : s'.defaultPool = s.defaultPool) : SameTotals s s' := by
  refine ⟨?_, ?_⟩
  · rw [systemColl, ha, hd, systemColl]
  · rw [systemDebt, ha, hd, systemDebt]

theorem SameTotals.trans {s'' : System} (h : SameTotals s s') (h' : SameTotals s' s'') : SameTotals s s'' :=
  ⟨h'.coll.trans h.coll, h'.debt.trans h.debt⟩

theorem SameTotals.getTCR (h : SameTotals s s') : Protocol.getTCR s' price = .ok t ↔ Protocol.getTCR s price = .ok t := by
  rw [getTCR_iff, getTCR_iff, h.coll, h.debt]

theorem TroveManager.Moved.totals {SIM WSTETH : ℕ} (h : Moved c s s' SIM WSTETH) : SameTotals s s' := by
  have hdebt := h.debt_le
  have hcoll := h.coll_le
  obtain ⟨u, -, rfl⟩ := h.state
  refine ⟨?_, ?_⟩
  · simp only [systemColl]
    omega
  · simp only [systemDebt]
    omega

/-- applying rewards moves them from one pool to the other, and to the trove -/
theorem settlePendingRewards_totals (h : settlePendingRewards c s b = .ok s') : SameTotals s s' ∧
    ((trove s b).debt ≤ s.activePool.SIMDebt → (trove s' b).debt ≤ s'.activePool.SIMDebt) := by
  rcases settlePendingRewards_ok h with ⟨-, rfl⟩ | ⟨-, pw, pd, -, -, hmoved⟩
  · exact ⟨⟨rfl, rfl⟩, id⟩
  · have htotals := hmoved.totals
    refine ⟨⟨htotals.coll, htotals.debt⟩, fun hdebt => ?_⟩
    obtain ⟨u, -, rfl⟩ := hmoved.state
    simp only [trove, settledManager, Function.update_self] at hdebt ⊢
    omega

theorem chargeFee_totals {charged : Bool} {SIMAmount maxFee netDebt : ℕ}
    (h : chargeFee c env s charged SIMAmount maxFee = .ok (s', netDebt)) :
    s'.activePool = s.activePool ∧ s'.defaultPool = s.defaultPool := by
  obtain ⟨fee, hf⟩ := chargeFee_ok h
  obtain ⟨r, u, hu⟩ := hf.state
  rw [hu]
  exact ⟨rfl, rfl⟩

theorem activePoolAddColl_totals (h : activePoolAddColl c s amount = .ok s') :
    systemColl s' = systemColl s + amount ∧ systemDebt s' = systemDebt s := by
  obtain ⟨s₁, h1, h⟩ := bind_ok.1 h
  obtain ⟨u, -, rfl⟩ := transferWSTETH_ok h1
  obtain rfl := ActivePool.receiveWSTETH_ok h
  exact ⟨by simp only [systemColl]; omega, rfl⟩

theorem sendWSTETH_totals {caller : Address} (hne : sender ≠ c.defaultPool)
    (h : ActivePool.sendWSTETH c caller s sender amount = .ok s') :
    systemColl s' = systemColl s - amount ∧ systemDebt s' = systemDebt s := by
  obtain ⟨hle, u, -, hn⟩ := ActivePool.sendWSTETH_ok h
  have hdefault := hn.defaultPool
  rw [if_neg hne] at hdefault
  refine ⟨?_, ?_⟩
  · rw [systemColl, hn.activePool, hdefault, systemColl]
    dsimp only
    omega
  · rw [systemDebt, hn.activePool, hdefault, systemDebt]

theorem issueSIM_totals {SIMAmount : ℕ} (h : issueSIM c s sender SIMAmount amount = .ok s') :
    systemColl s' = systemColl s ∧ systemDebt s' = systemDebt s + amount := by
  obtain ⟨s₁, h1, h⟩ := bind_ok.1 h
  obtain rfl := ActivePool.increaseSIMDebt_ok h1
  obtain ⟨u, -, rfl⟩ := SIMToken.mint_ok h
  exact ⟨rfl, by simp only [systemDebt]; omega⟩

theorem burnSIM_totals (h : burnSIM c s sender amount = .ok s') :
    systemColl s' = systemColl s ∧ systemDebt s' = systemDebt s - amount := by
  obtain ⟨s₁, h1, h⟩ := bind_ok.1 h
  obtain ⟨hle, rfl⟩ := ActivePool.decreaseSIMDebt_ok h1
  obtain ⟨u, -, rfl⟩ := SIMToken.burn_ok h
  exact ⟨rfl, by simp only [systemDebt]; omega⟩

theorem moveTokens_changed {SIMChange : ℕ} (hne : sender ≠ c.defaultPool)
    (hfree : x.isDebtIncrease = false → x.debtChange = SIMChange)
    (h : moveTokensAndWSTETHfromAdjustment c s sender x SIMChange = .ok s') : SystemChanged s s' x := by
  obtain ⟨s₁, h1, h⟩ := bind_ok.1 h
  have hSIM : systemColl s₁ = systemColl s ∧ systemDebt s₁ = after (systemDebt s) x.debtChange x.isDebtIncrease := by
    unfold moveSIM at h1
    split_ifs at h1 with hup
    · simpa [after, hup] using issueSIM_totals h1
    · simpa [after, hup, hfree (by simpa using hup)] using burnSIM_totals h1
  have hcoll : systemColl s' = after (systemColl s₁) x.collChange x.isCollIncrease ∧ systemDebt s' = systemDebt s₁ := by
    unfold moveColl at h
    split_ifs at h with hup
    · simpa [after, hup] using activePoolAddColl_totals h
    · simpa [after, hup] using sendWSTETH_totals hne h
  exact ⟨hcoll.1.trans (by rw [hSIM.1]), hcoll.2.trans hSIM.2⟩

/-! ## The two modes -/

/-- what an operation on trove `b` may do: in normal mode the total ratio stays at CCR or more and the trove gets a ratio of
at least MCR; in recovery mode the total ratio does not fall by more than a unit -/
structure RespectsMode (s' : System) (b : Address) (price t : ℕ) : Prop where
  normal : CCR ≤ t → ∃ t', getTCR s' price = .ok t' ∧ CCR ≤ t' ∧ ((trove s' b).status = .active →
    ∃ r, computeCR (trove s' b).coll (trove s' b).debt price = .ok r ∧ MCR ≤ r)
  recovery : t < CCR → t ≤ systemRatio s' price + 1 ∧ ∀ t', getTCR s' price = .ok t' → t ≤ t' + 1

/-- the total ratio in terms of the totals, in recovery mode -/
theorem recovery_ratio (h : getTCR s price = .ok t) (hlow : t < CCR) :
    0 < systemDebt s ∧ t ≤ systemColl s * price / systemDebt s := by
  have ht := getTCR_eq h
  unfold systemRatio at ht
  split_ifs at ht with hpos
  · exact ⟨hpos, ht.le⟩
  · rw [ht] at hlow
    exact absurd hlow (by decide)

theorem RespectsMode.of_recovery {mode : Bool} (hmode : mode = decide (t < CCR)) (hrecovery : mode = true)
    (h : t ≤ systemRatio s' price + 1) : RespectsMode s' b price t := by
  have hlow : t < CCR := by simpa [hmode] using hrecovery
  exact ⟨fun hhigh => absurd hhigh (Nat.not_le.2 hlow), fun _ => ⟨h, fun t' ht' => getTCR_eq ht' ▸ h⟩⟩

theorem RespectsMode.of_normal {mode : Bool} {t' r : ℕ} (hmode : mode = decide (t < CCR)) (hnormal : mode = false)
    (ht' : getTCR s' price = .ok t') (hCCR : CCR ≤ t')
    (hr : (trove s' b).status = .active → computeCR (trove s' b).coll (trove s' b).debt price = .ok r) (hMCR : MCR ≤ r) :
    RespectsMode s' b price t := by
  have hhigh : ¬ t < CCR := by simpa [hmode] using hnormal
  exact ⟨fun _ => ⟨t', ht', hCCR, fun ha => ⟨r, hr ha, hMCR⟩⟩, fun hlow => absurd hlow hhigh⟩

/-- a ratio that only improves -/
theorem systemRatio_mono (hrec : 0 < systemDebt s ∧ t ≤ systemColl s * price / systemDebt s) (hmax : t ≤ uintMax)
    (hcoll : systemColl s ≤ systemColl s') (hdebt : systemDebt s' ≤ systemDebt s) : t ≤ systemRatio s' price := by
  unfold systemRatio
  split_ifs with hpos
  · exact hrec.2.trans (Ratio.div_le_div_of (Nat.mul_le_mul_right price hcoll) hdebt hpos)
  · exact hmax

/-! ## Operations -/

theorem openTrove_respectsMode {maxFee SIMAmount : ℕ} {p n : Address} (hreg : Registry s)
    (h : openTrove c env sender s amount maxFee SIMAmount p n = .ok s') :
    ∃ price t, env.fetchPrice = .ok price ∧ getTCR s price = .ok t ∧ RespectsMode s' sender price t := by
  obtain ⟨price, mode, s₁, s₂, s₃, s₄, netDebt, hs⟩ := openTrove_ok h
  obtain ⟨ICR, NICR, hICR, -, hvalid, hc⟩ := hs.created
  obtain ⟨t, ht, hmode⟩ := checkRecoveryMode_ok hs.mode
  have hreceived : SameTotals s s₁ := by
    obtain ⟨u, -, rfl⟩ := transferFromWSTETH_ok hs.received
    exact ⟨rfl, rfl⟩
  have hfee : SameTotals s₁ s₂ := .of_eq (chargeFee_totals hs.fee).1 (chargeFee_totals hs.fee).2
  have hcreated : SameTotals s₂ s₃ := .of_eq (by rw [hc.rest]) (by rw [hc.rest])
  obtain ⟨hcoll, hdebt⟩ := activePoolAddColl_totals hs.added
  obtain ⟨hcoll', hdebt'⟩ := issueSIM_totals hs.issued
  have hchanged : SystemChanged s₂ s' ⟨amount, true, netDebt, true⟩ := by
    refine ⟨?_, ?_⟩
    · rw [hcoll', hcoll, hcreated.coll]
      rfl
    · rw [hdebt', hdebt, hcreated.debt]
      rfl
  rw [hreceived.getTCR] at ht
  refine ⟨price, t, hs.fetched, ht, ?_⟩
  cases mode with
  | true =>
    simp only [requireValidOpening, if_true, requireICRisAboveCCR, require_ok] at hvalid
    refine .of_recovery hmode rfl ?_
    have hlow : t < CCR := by simpa using hmode.symm
    obtain ⟨hpos, hle⟩ := recovery_ratio ht hlow
    have hcoll₂ : systemColl s' = systemColl s + amount := by
      rw [hchanged.coll, hfee.coll, hreceived.coll]
      rfl
    have hdebt₂ : systemDebt s' = systemDebt s + netDebt := by
      rw [hchanged.debt, hfee.debt, hreceived.debt]
      rfl
    have hnet : 0 < netDebt := lt_of_lt_of_le (by decide) hs.min
    have hICR := computeCR_ok hICR
    rw [if_pos hnet] at hICR
    rw [systemRatio, if_pos (by omega), hcoll₂, hdebt₂, Nat.add_mul]
    refine Nat.le_succ_of_le (Ratio.le_div_add (by omega) ((Nat.le_div_iff_mul_le hpos).1 hle) ?_)
    exact (Nat.le_div_iff_mul_le hnet).1 (by omega)
  | false =>
    simp only [requireValidOpening, Bool.false_eq_true, if_false, requireICRisAboveMCR, require_bind] at hvalid
    obtain ⟨hMCR, hvalid⟩ := hvalid
    obtain ⟨newTCR, hnew, hvalid⟩ := bind_ok.1 hvalid
    rw [requireNewTCRisAboveCCR, require_ok] at hvalid
    refine .of_normal hmode rfl (hchanged.getTCR hnew) hvalid (fun _ => ?_) hMCR
    have hidle : (trove s₂ sender).coll = 0 ∧ (trove s₂ sender).debt = 0 := by
      have hstart := SamePosition.of_frame (a := sender) (transferFromWSTETH_frame hs.received)
      have hsame := hstart.trans (.of_frame (chargeFee_frame hs.fee))
      obtain ⟨h1, h2, -, -⟩ := hsame.fields
      obtain ⟨h3, h4, -⟩ := hreg.idle sender (hstart.fields.2.2.2 ▸ hs.notActive)
      exact ⟨h1.trans h3, h2.trans h4⟩
    obtain ⟨h1, h2, -⟩ := hc.trove_self hidle
    have hlast := (activePoolAddColl_frame hs.added).trans (issueSIM_frame hs.issued)
    obtain ⟨h3, h4, -, -⟩ := (SamePosition.of_frame (a := sender) hlast).fields
    rw [h3, h4, h1, h2]
    exact hICR

theorem closeTrove_respectsMode (hne : sender ≠ c.defaultPool)
    (h : BorrowerOperations.closeTrove c env sender s = .ok s') :
    ∃ price t, env.fetchPrice = .ok price ∧ getTCR s price = .ok t ∧ RespectsMode s' sender price t := by
  obtain ⟨price, s₁, s₂, s₃, s₄, hs⟩ := closeTrove_ok h
  obtain ⟨t, ht, hmode⟩ := checkRecoveryMode_ok hs.mode
  obtain ⟨newTCR, hnew, hCCR⟩ := hs.ratio
  have hclosed := shut_closed hs.unstaked hs.shut
  obtain ⟨hcoll, hdebt⟩ := burnSIM_totals hs.burned
  obtain ⟨hcoll', hdebt'⟩ := sendWSTETH_totals hne hs.sent
  have hsame : SameTotals s₁ s₃ := .of_eq (by rw [hclosed.rest]) (by rw [hclosed.rest])
  have hchanged : SystemChanged s₁ s' ⟨(trove s₁ sender).coll, false, (trove s₁ sender).debt, false⟩ := by
    refine ⟨?_, ?_⟩
    · rw [hcoll', hcoll, hsame.coll]
      rfl
    · rw [hdebt', hdebt, hsame.debt]
      rfl
  refine ⟨price, t, hs.fetched, ht, ?_⟩
  refine .of_normal (r := MCR) hmode rfl (hchanged.getTCR hnew) hCCR (fun hactive => ?_) le_rfl
  -- the trove is not open any more
  obtain ⟨⟨i, hi⟩, -, -⟩ := hclosed.troves
  have hlast := (burnSIM_frame hs.burned).trans (sendWSTETH_frame hs.sent hne)
  rw [(SamePosition.of_frame (a := sender) hlast).fields.2.2.2, hi] at hactive
  cases hactive

/-- without a withdrawal the collateral grows by what lies at `BorrowerOperations` -/
theorem adjustChange_coll {a : AdjustArgs} {net : ℕ} (hw : a.collWithdrawal = 0) :
    after amount (adjustChange c s a net).collChange (adjustChange c s a net).isCollIncrease =
      amount + s.wsteth.balanceOf c.borrowerOperations := by
  by_cases h0 : s.wsteth.balanceOf c.borrowerOperations = 0
  · simp [adjustChange, getCollChange, after, h0, hw]
  · simp [adjustChange, getCollChange, after, h0]

section Adjust

variable {a : AdjustArgs} {mode : Bool} {s₂ s₃ : System} {net : ℕ}

/-- rewards and fee leave the totals alone; the change moves them as predicted -/
theorem BorrowerOperations.AdjustSteps.totals (hs : AdjustSteps c env sender s b a price mode s₁ s₂ s₃ s' net)
    (hne : sender ≠ c.defaultPool) : SameTotals s s₂ ∧ SystemChanged s₂ s' (adjustChange c s a net) := by
  obtain ⟨hactivePool, hdefaultPool⟩ := chargeFee_totals hs.fee
  have hsame := (settlePendingRewards_totals hs.settled).1.trans (.of_eq hactivePool hdefaultPool)
  have hedited : SameTotals s₂ s₃ := .of_eq (by rw [hs.edited.rest]) (by rw [hs.edited.rest])
  have hfree : a.isDebtIncrease = false → net = a.SIMChange := by
    intro hup
    obtain ⟨fee, hcharged⟩ := chargeFee_ok hs.fee
    rw [hcharged.netDebt, hcharged.free (by simp [hup]), Nat.add_zero]
  have hmoved := moveTokens_changed hne hfree hs.moved
  exact ⟨hsame, hmoved.coll.trans (by rw [hedited.coll]), hmoved.debt.trans (by rw [hedited.debt])⟩

/-- the debt of the trove is a part of the system's -/
theorem BorrowerOperations.AdjustSteps.debt_part (hs : AdjustSteps c env sender s b a price mode s₁ s₂ s₃ s' net)
    (hreg : Registry s) (hdebt : (trove s b).debt ≤ s.activePool.SIMDebt) :
    0 < (trove s₂ b).debt ∧ (trove s₂ b).debt ≤ systemDebt s := by
  obtain ⟨hsame, hle⟩ := settlePendingRewards_totals hs.settled
  have hfee := ((SamePosition.of_frame (a := b) (chargeFee_frame hs.fee)).fields).2.1
  refine ⟨?_, ?_⟩
  · have hmin := hreg.minDebt b hs.active
    rw [hfee, (settlePendingRewards_settled hs.settled).debt, settledDebt]
    exact Nat.add_pos_left (lt_of_lt_of_le (by decide) hmin) _
  · rw [hfee, ← hsame.debt, systemDebt]
    exact (hle hdebt).trans (Nat.le_add_right _ _)

/-- in recovery mode the total ratio is not checked, but the trove's own is -/
theorem BorrowerOperations.AdjustSteps.recovery (hs : AdjustSteps c env sender s b a price true s₁ s₂ s₃ s' net)
    (hreg : Registry s) (hdebt : (trove s b).debt ≤ s.activePool.SIMDebt) (hne : sender ≠ c.defaultPool)
    (ht : getTCR s price = .ok t) (hlow : t < CCR) : t ≤ systemRatio s' price + 1 := by
  obtain ⟨hsame, hchanged⟩ := hs.totals hne
  obtain ⟨oldICR, newICR, hold, hnew, hvalid⟩ := hs.ratios
  simp only [requireValidAdjustmentInCurrentMode, if_true, requireNoCollWithdrawal, require_bind] at hvalid
  obtain ⟨hw, hvalid⟩ := hvalid
  have hrec := recovery_ratio ht hlow
  have hcoll' : systemColl s' = systemColl s + s.wsteth.balanceOf c.borrowerOperations := by
    rw [hchanged.coll, adjustChange_coll hw, hsame.coll]
  have hdebt' : systemDebt s' = after (systemDebt s) net a.isDebtIncrease := by
    rw [hchanged.debt, hsame.debt]
    rfl
  by_cases hup : a.isDebtIncrease = true
  · -- more debt: the trove's own ratio must not fall, and be at least CCR
    rw [show (adjustChange c s a net).isDebtIncrease = a.isDebtIncrease from rfl, if_pos hup] at hvalid
    simp only [requireICRisAboveCCR, requireNewICRisAboveOldICR, require_bind, require_ok] at hvalid
    obtain ⟨hCCR, hratio⟩ := hvalid
    obtain ⟨hpos, hpart⟩ := hs.debt_part hreg hdebt
    have hold := computeCR_ok hold
    have hnew := computeCR_ok hnew
    rw [TroveChange.newColl, adjustChange_coll hw, adjustChange_newDebt, if_pos hup, if_pos (by omega), Nat.add_mul] at hnew
    rw [if_pos hpos] at hold
    rw [after, if_pos hup] at hdebt'
    rw [systemRatio, hcoll', hdebt', if_pos (by omega), Nat.add_mul]
    exact Ratio.le_div_grow hpos hpart hrec.2 (hlow.le.trans hCCR) (hold ▸ hratio) hnew.le
  · -- no more debt, no less collateral
    rw [after, if_neg hup] at hdebt'
    refine Nat.le_succ_of_le (systemRatio_mono hrec (computeCR_le_uintMax (getTCR_iff.1 ht).2.2) ?_ ?_)
    · rw [hcoll']
      exact Nat.le_add_right _ _
    · rw [hdebt']
      exact Nat.sub_le _ _

end Adjust

theorem adjust_respectsMode {a : AdjustArgs} (hreg : Registry s) (hdebt : (trove s b).debt ≤ s.activePool.SIMDebt)
    (hne : sender ≠ c.defaultPool) (h : adjust c env sender s b a = .ok s') :
    ∃ price t, env.fetchPrice = .ok price ∧ getTCR s price = .ok t ∧ RespectsMode s' b price t := by
  obtain ⟨price, mode, s₁, s₂, s₃, net, hs⟩ := adjust_ok h
  obtain ⟨t, ht, hmode⟩ := checkRecoveryMode_ok hs.mode
  refine ⟨price, t, hs.fetched, ht, ?_⟩
  cases mode with
  | true => exact .of_recovery hmode rfl (hs.recovery hreg hdebt hne ht (by simpa using hmode.symm))
  | false =>
    obtain ⟨-, hchanged⟩ := hs.totals hne
    obtain ⟨oldICR, newICR, -, hnew, hvalid⟩ := hs.ratios
    simp only [requireValidAdjustmentInCurrentMode, Bool.false_eq_true, if_false, requireICRisAboveMCR, require_bind] at hvalid
    obtain ⟨hMCR, hvalid⟩ := hvalid
    obtain ⟨newTCR, hTCR, hvalid⟩ := bind_ok.1 hvalid
    rw [requireNewTCRisAboveCCR, require_ok] at hvalid
    refine .of_normal hmode rfl (hchanged.getTCR hTCR) hvalid (fun _ => ?_) hMCR
    obtain ⟨⟨stake, -, hself⟩, -⟩ := hs.edited.troves
    obtain ⟨h1, h2, -, -⟩ := (SamePosition.of_frame (a := b) (moveTokens_frame hne hs.moved)).fields
    rw [h1, h2, hself]
    exact hnew

/-- an adjustment in a state that differs from `s` in tokens only -/
theorem adjust_respectsMode_after {a : AdjustArgs} (hf : Frame s s₁) (hpool : s₁.activePool = s.activePool)
    (hreg : Registry s) (hdebt : (trove s b).debt ≤ s.activePool.SIMDebt) (hne : sender ≠ c.defaultPool)
    (h : adjust c env sender s₁ b a = .ok s') :
    ∃ price t, env.fetchPrice = .ok price ∧ getTCR s price = .ok t ∧ RespectsMode s' b price t := by
  obtain ⟨-, hsame, -, -⟩ := (SamePosition.of_frame (a := b) hf).fields
  obtain ⟨price, t, hprice, ht, hmode⟩ := adjust_respectsMode (hreg.frame hf) (by rw [hsame, hpool]; exact hdebt) hne h
  exact ⟨price, t, hprice, (SameTotals.of_eq hpool hf.defaultPool).getTCR.1 ht, hmode⟩

/-! ## All operations -/

/-- the operations of borrowers, and the one that moves a collateral gain to a trove -/
def isBorrowerOperation : Call → Bool
  | .openTrove .. | .addColl .. | .withdrawColl .. | .withdrawSIM .. | .repaySIM .. | .adjustTrove .. | .closeTrove
  | .withdrawWSTETHGainToTrove .. => true
  | _ => false

/-- **Borrower operations respect the mode of the system**: in normal mode they leave the total ratio at CCR or more and
the trove at MCR or more; in recovery mode they do not lower the total ratio by more than the last digit. -/
theorem borrowing_respects_mode (c : Config) (calls : List (Tx c)) (tx : Tx c) (s' : System)
    (hop : isBorrowerOperation tx.call = true) (h : exec c (reached c calls) tx = .ok s') :
    ∃ price t, tx.env.fetchPrice = .ok price ∧ getTCR (reached c calls) price = .ok t ∧
      RespectsMode s' tx.sender.address price t := by
  have hreg := reached_registry calls
  have hdebt : ∀ b, (trove (reached c calls) b).debt ≤ (reached c calls).activePool.SIMDebt := by
    intro b
    have hbook := (reached_balanced calls).debt
    have hle := Ledger.le_sum (fun a => ((reached c calls).troveManager.Troves a).debt) b
    simp only [gap] at hbook
    simp only [trove]
    omega
  generalize reached c calls = s at *
  obtain ⟨env, sender, call⟩ := tx
  have hdefault : sender.address ≠ c.defaultPool := fun e => sender.notMem_pools (by simp [Config.pools, e])
  unfold exec at h
  cases call with
  | openTrove amount maxFee SIMAmount p n => exact openTrove_respectsMode hreg h
  | addColl amount p n =>
    obtain ⟨s₁, h1, h⟩ := bind_ok.1 h
    have hf := transferFromWSTETH_frame h1
    obtain ⟨u, -, rfl⟩ := transferFromWSTETH_ok h1
    exact adjust_respectsMode_after hf rfl hreg (hdebt _) hdefault h
  | withdrawColl w p n => exact adjust_respectsMode hreg (hdebt _) hdefault h
  | withdrawSIM maxFee SIMAmount p n => exact adjust_respectsMode hreg (hdebt _) hdefault h
  | repaySIM SIMAmount p n => exact adjust_respectsMode hreg (hdebt _) hdefault h
  | adjustTrove amount args =>
    obtain ⟨s₁, h1, h⟩ := bind_ok.1 h
    unfold receiveColl at h1
    split_ifs at h1
    · have hf := transferFromWSTETH_frame h1
      obtain ⟨u, -, rfl⟩ := transferFromWSTETH_ok h1
      exact adjust_respectsMode_after hf rfl hreg (hdebt _) hdefault h
    · cases h1
      exact adjust_respectsMode hreg (hdebt _) hdefault h
  | closeTrove => exact closeTrove_respectsMode hdefault h
  | withdrawWSTETHGainToTrove p n =>
    obtain ⟨pool, u, s₁, -, -, -, rfl, h⟩ := withdrawWSTETHGainToTrove_ok h
    have hf : Frame s { s with stabilityPool := pool, wsteth := u } := .of_eq rfl rfl rfl
    exact adjust_respectsMode_after hf rfl hreg (hdebt _) (Ne.symm c.ne.2.2.2.1) h
  | _ => cases hop

/-- Bob borrows 100 SIM more -/
def bobBorrows : Tx exampleConfig := atPrice (2000 * 10 ^ 18) bob (.withdrawSIM (10 ^ 18) (100 * 10 ^ 18) 0 0)

theorem borrowing_respects_mode_bob :
    ∃ s', exec exampleConfig (reached exampleConfig twoTroves) bobBorrows = .ok s' ∧
      ∃ price t, bobBorrows.env.fetchPrice = .ok price ∧ getTCR (reached exampleConfig twoTroves) price = .ok t ∧
        RespectsMode s' bob.address price t := by
  obtain ⟨s', hs'⟩ : ∃ s', exec exampleConfig (reached exampleConfig twoTroves) bobBorrows = .ok s' :=
    Res.failure_none (by decide +kernel)
  exact ⟨s', hs', borrowing_respects_mode exampleConfig twoTroves bobBorrows s' rfl hs'⟩

end SimContracts.Protocol
