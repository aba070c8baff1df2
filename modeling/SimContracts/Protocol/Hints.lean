/-
`getRedemptionHints` against `redeemCollateral`.

The first simulates the walk of the second over the troves as they are, with the rewards added on the fly; the second
applies the rewards, closes the troves it pays off and goes on. `TakesAll` says of the troves ahead, in the state before,
that a redemption takes all of an amount from them. A redemption that goes through burns its amount iff `TakesAll` holds of
the first `k` troves (`redeemCollateral_burns`); the simulation returns the largest amount for which it holds of the first
`k - 1` (`hintsLoop_max`), since its cap is checked with `--_maxIterations > 0`.

Results:
  redemptionHints_agree         what the hints name is taken in full; it is the maximum iff nothing is left for the k-th trove
  redemptionHints_off_by_one    a cap of 1 hints at nothing where the redemption closes a trove
-/
import SimContracts.Protocol.Sequences

namespace SimContracts.Protocol

open Solidity TroveManager BorrowerOperations HintHelpers

variable {c : Config} {env : Env} {s s' s₀ : System} {a b sender : Address} {price k n amount more NICR : ℕ}
  {xs bs cs : List Address} {hint : PartialRedemptionHint} {t t' : RedemptionTotals}

/-! ## What troves take -/

/-- a redemption takes all of `amount` from these troves: it pays some of them off and, with the right hint, leaves the next
one with the rest of its debt -/
def TakesAll (s : System) (price NICR : ℕ) : List Address → ℕ → Prop
  | [], amount => amount = 0
  | b :: bs, amount =>
    amount = 0 ∨ (settledDebt s b ≤ amount ∧ TakesAll s price NICR bs (amount - settledDebt s b)) ∨
      amount < settledDebt s b ∧ MIN_NET_DEBT ≤ settledDebt s b - amount ∧
        ∀ x, computeNominalCR (settledColl s b - amount * DECIMAL_PRECISION / price) (settledDebt s b - amount) = .ok x →
          x = NICR

/-- the debt of these troves, with the rewards that would be applied to them -/
def debtOf (s : System) (bs : List Address) : ℕ := (bs.map (settledDebt s)).sum

/-- when `bs` are paid off, some of `amount` is left for `b` -/
def Spills (s : System) (amount : ℕ) (bs : List Address) (b : Address) : Prop :=
  debtOf s bs < amount ∧ 0 < settledDebt s b ∧
    (settledDebt s b ≤ amount - debtOf s bs ∨ MIN_NET_DEBT < settledDebt s b)

@[simp] theorem debtOf_cons : debtOf s (b :: bs) = settledDebt s b + debtOf s bs := by
  simp [debtOf]

theorem takesAll_zero (bs : List Address) : TakesAll s price NICR bs 0 := by
  cases bs with
  | nil => rfl
  | cons b bs => exact .inl rfl

theorem TakesAll.le (h : TakesAll s price NICR bs amount) : amount ≤ debtOf s bs := by
  induction bs generalizing amount with
  | nil => exact (show amount = 0 from h) ▸ Nat.zero_le _
  | cons b bs ih =>
    rw [debtOf_cons]
    rcases h with h0 | ⟨hle, h⟩ | ⟨hlt, -⟩
    · omega
    · have := ih h
      omega
    · omega

/-- paid off in full, the first troves leave the rest of the amount to the others -/
theorem TakesAll.add (h : TakesAll s price NICR cs amount) (bs : List Address) :
    TakesAll s price NICR (bs ++ cs) (debtOf s bs + amount) := by
  induction bs with
  | nil =>
    have : debtOf s [] + amount = amount := by simp [debtOf]
    rw [this]
    exact h
  | cons b bs ih =>
    refine .inr (.inl ⟨by simp; omega, ?_⟩)
    have : debtOf s (b :: bs) + amount - settledDebt s b = debtOf s bs + amount := by
      rw [debtOf_cons]
      omega
    rw [this]
    exact ih

/-- more troves take no less -/
theorem TakesAll.append (h : TakesAll s price NICR bs amount) (cs : List Address) :
    TakesAll s price NICR (bs ++ cs) amount := by
  induction bs generalizing amount with
  | nil =>
    rw [show amount = 0 from h]
    exact takesAll_zero cs
  | cons b bs ih =>
    rcases h with h0 | ⟨hle, h⟩ | h
    · exact .inl h0
    · exact .inr (.inl ⟨hle, ih h⟩)
    · exact .inr (.inr h)

/-- with nothing left for `b`, it makes no difference -/
theorem TakesAll.capped (h : TakesAll s price NICR (bs ++ [b]) more) (hle : more ≤ amount) (hno : ¬ Spills s amount bs b) :
    TakesAll s price NICR bs more := by
  induction bs generalizing amount more with
  | nil =>
    -- what `b` takes, is nothing
    show more = 0
    by_contra hpos
    refine hno ⟨show 0 < amount by omega, ?_⟩
    rw [show debtOf s [] = 0 from rfl, Nat.sub_zero]
    rcases h with h0 | ⟨hpaid, h⟩ | ⟨hlt, hmin, -⟩
    · exact absurd h0 hpos
    · have hall : more - settledDebt s b = 0 := h
      exact ⟨by omega, .inl (by omega)⟩
    · exact ⟨by omega, .inr (by omega)⟩
  | cons d bs ih =>
    rcases h with h0 | ⟨hpaid, h⟩ | h
    · exact .inl h0
    · have hrest : ¬ Spills s (amount - settledDebt s d) bs b := by
        rintro ⟨hsum, hpos, hleft⟩
        rw [Nat.sub_sub] at hleft
        refine hno ⟨?_, hpos, ?_⟩ <;> rw [debtOf_cons]
        · omega
        · exact hleft
      exact .inr (.inl ⟨hpaid, ih h (by omega) hrest⟩)
    · exact .inr (.inr h)

/-- what is left for `b` makes the amount larger -/
theorem Spills.takes_more (h : Spills s amount bs b) :
    ∃ more NICR, debtOf s bs < more ∧ more ≤ amount ∧ TakesAll s price NICR (bs ++ [b]) more := by
  obtain ⟨hsum, hpos, hleft⟩ := h
  by_cases hmin : MIN_NET_DEBT < settledDebt s b
  · -- `b` is left with the minimum debt, or more
    obtain ⟨x, hx⟩ : ∃ x, x = min (amount - debtOf s bs) (settledDebt s b - MIN_NET_DEBT) := ⟨_, rfl⟩
    obtain ⟨NICR, hNICR⟩ : ∃ NICR, ∀ y,
        computeNominalCR (settledColl s b - x * DECIMAL_PRECISION / price) (settledDebt s b - x) = .ok y → y = NICR := by
      cases computeNominalCR (settledColl s b - x * DECIMAL_PRECISION / price) (settledDebt s b - x) with
      | ok NICR => exact ⟨NICR, fun y hy => (Except.ok.inj hy).symm⟩
      | error e => exact ⟨0, nofun⟩
    have hpositive : 0 < MIN_NET_DEBT := by decide
    refine ⟨debtOf s bs + x, NICR, by omega, by omega, TakesAll.add ?_ bs⟩
    exact .inr (.inr ⟨by omega, by omega, hNICR⟩)
  · have hpaid : settledDebt s b ≤ amount - debtOf s bs := hleft.resolve_right hmin
    refine ⟨debtOf s bs + settledDebt s b, 0, by omega, by omega, TakesAll.add ?_ bs⟩
    exact .inr (.inl ⟨le_rfl, Nat.sub_self _⟩)

/-! ## The walk of a redemption -/

/-- SIM is only burned when the walk is over -/
theorem settlePendingRewards_sim (h : settlePendingRewards c s b = .ok s') : s'.sim = s.sim := by
  rcases settlePendingRewards_ok h with ⟨-, rfl⟩ | ⟨-, pw, pd, -, -, hmoved⟩
  · rfl
  · obtain ⟨t, -, rfl⟩ := hmoved.state
    rfl

theorem redeemCloseTrove_sim (h : redeemCloseTrove c s b amount = .ok s') : s'.sim = s.sim := by
  obtain ⟨s₁, h1, h⟩ := bind_ok.1 h
  obtain ⟨-, w, -, hn⟩ := ActivePool.sendWSTETH_ok h
  rw [hn.sim, CollSurplusPool.accountSurplus_ok h1]

/-- a walk upwards over `bs`, which were not touched before -/
structure Redeemed (s₀ : System) (price NICR : ℕ) (bs : List Address) (t t' : RedemptionTotals) : Prop where
  sim : t'.s.sim = t.s.sim
  sum : t'.totalSIMToRedeem + t'.remainingSIM = t.totalSIMToRedeem + t.remainingSIM
  all : t'.remainingSIM = 0 ↔ TakesAll s₀ price NICR bs t.remainingSIM

theorem redeemLoop_redeemed (hw : Walk s₀ t.s xs) (h : redeemLoop c price hint n (xs.getLastD 0) t = .ok t') :
    Redeemed s₀ price hint.NICR (xs.reverse.take n) t t' := by
  induction n generalizing xs t with
  | zero =>
    cases h
    exact ⟨rfl, rfl, Iff.rfl⟩
  | succ n ih =>
    rcases xs.eq_nil_or_concat with rfl | ⟨us, b, rfl⟩
    · cases (redeemLoop_done (.inl rfl)).symm.trans h
      exact ⟨rfl, rfl, Iff.rfl⟩
    simp only [List.concat_eq_append] at hw h ⊢
    rw [List.getLastD_concat] at h
    rw [reverse_take_succ]
    by_cases hrem : t.remainingSIM = 0
    · rw [redeemLoop_done (.inr hrem)] at h
      cases h
      exact ⟨rfl, rfl, fun _ => hrem ▸ takesAll_zero _, fun _ => hrem⟩
    have hb : b ≠ 0 := by
      obtain ⟨ys, hc⟩ := hw.now
      exact hc.mem_ne_zero (by simp)
    obtain ⟨s₁, h1, hstep⟩ := redeemLoop_step hw hb hrem h
    have hsettled := settlePendingRewards_settled h1
    have hsim := settlePendingRewards_sim h1
    cases hstep with
    | paid s₂ s₃ hle hclosed hsurplus hloop =>
      have hframe := redeemCloseTrove_frame hsurplus
      have hrest := ih ((hw.pass (hsettled.gone hclosed.gone)).frame hframe) hloop
      refine ⟨?_, ?_, hrest.all.trans ⟨fun hall => .inr (.inl ⟨hle, hall⟩), ?_⟩⟩
      · rw [hrest.sim, ← hsim, redeemCloseTrove_sim hsurplus, hclosed.rest]
      · have := hrest.sum
        dsimp only at this
        omega
      · rintro (h0 | ⟨-, hall⟩ | ⟨hlt, -⟩)
        · exact absurd h0 hrem
        · exact hall
        · omega
    | cancelled NICR hlt hNICR hcancel ht =>
      rw [ht]
      refine ⟨hsim, rfl, fun h0 => absurd h0 hrem, ?_⟩
      rintro (h0 | ⟨hle, -⟩ | ⟨-, hmin, hright⟩)
      · exact h0
      · exact absurd hle (Nat.not_le.2 hlt)
      · rcases hcancel with hne | hlow
        · exact absurd (hright NICR hNICR) hne
        · exact absurd hmin (Nat.not_le.2 hlow)
    | left_ s₂ hlt hNICR hmin hedited ht =>
      rw [ht]
      refine ⟨by rw [← hsim, hedited.rest], rfl, fun _ => .inr (.inr ⟨hlt, hmin, fun x hx => ?_⟩), fun _ => rfl⟩
      rw [hNICR] at hx
      exact (Except.ok.inj hx).symm

/-- the payments burn what the walk took -/
theorem finishRedemption_burns {maxFee supply : ℕ} (h : finishRedemption c env sender price maxFee supply t = .ok s') :
    t.s.sim.burn sender t.totalSIMToRedeem = .ok s'.sim := by
  obtain ⟨fee, s₁, s₂, s₃, s₄, hs⟩ := finishRedemption_ok h
  obtain ⟨r, time, hrate⟩ := hs.rate
  obtain ⟨-, w, -, hfee⟩ := ActivePool.sendWSTETH_ok hs.feeSent
  obtain ⟨u, hu, hburned⟩ := SIMToken.burn_ok hs.burned
  obtain ⟨-, hdebt⟩ := ActivePool.decreaseSIMDebt_ok hs.cancelled
  obtain ⟨-, w', -, hsent⟩ := ActivePool.sendWSTETH_ok hs.paid
  have hbefore : s₂.sim = t.s.sim := by rw [hfee.sim, hrate]
  have hafter : s'.sim = u := by rw [hsent.sim, hdebt, hburned]
  rw [hafter, ← hbefore]
  exact hu

theorem burn_inj {u v : ERC20} (h : u.burn sender amount = .ok v) (h' : u.burn sender more = .ok v) : amount = more := by
  obtain ⟨hle, -, -, hb⟩ := ERC20.burn_ok h
  obtain ⟨hle', -, -, hb'⟩ := ERC20.burn_ok h'
  have heq := congrFun (hb.symm.trans hb') sender
  rw [Function.update_self, Function.update_self] at heq
  omega

/-- the walk starts at the trove that the caller found -/
theorem firstBorrower_eq {first user : Address} (hfirst : firstRedeemable s price = .ok first)
    (h : firstBorrower s price first = .ok user) : user = first := by
  obtain ⟨valid, -, h⟩ := bind_ok.1 h
  cases valid with
  | true => exact (Except.ok.inj h).symm
  | false => exact Except.ok.inj (h.symm.trans hfirst)

/-- **What a redemption burns.** One that goes through burns all of its amount iff the troves of its walk take it. -/
theorem redeemCollateral_burns {ids : List Address} (hc : SortedTroves.IsChain s.sortedTroves ids) {first : Address}
    (hfirst : firstRedeemable s price = .ok first) {maxFee : ℕ} (hprice : env.fetchPrice = .ok price)
    (h : redeemCollateral c env sender s ⟨amount, first, hint, k, maxFee⟩ = .ok s') :
    s.sim.burn sender amount = .ok s'.sim ↔
      TakesAll s price hint.NICR (lastNodes s.sortedTroves (iterationCap k) first) amount := by
  obtain ⟨price', supply, user, t, hs⟩ := redeemCollateral_ok h
  cases hprice.symm.trans hs.fetched
  obtain rfl := firstBorrower_eq hfirst hs.first
  obtain ⟨xs, hw, rfl⟩ := exists_walk hc (firstBorrower_mem hc hs.first)
  obtain ⟨zs, hstart⟩ := hw.start
  have hr := redeemLoop_redeemed hw hs.loop
  have hburn := finishRedemption_burns hs.finish
  have hsum : t.totalSIMToRedeem + t.remainingSIM = 0 + amount := hr.sum
  rw [hr.sim] at hburn
  rw [lastNodes_eq hstart]
  refine Iff.trans ⟨fun hall => ?_, fun h0 => ?_⟩ hr.all
  · have := burn_inj hall hburn
    omega
  · rwa [show t.totalSIMToRedeem = amount by omega] at hburn

/-! ## The simulation -/

/-- `hasPendingRewards` reports every debt reward of a listed trove -/
def RewardsReported (s : System) : Prop :=
  ∀ a pd, SortedTroves.contains s.sortedTroves a = true → getPendingSIMDebtReward s a = .ok pd → 0 < pd →
    hasPendingRewards s a = true

/-- the simulated debt is the one the redemption will find -/
theorem RewardsReported.settledDebt {pd : ℕ} (h : RewardsReported s) (ha : SortedTroves.contains s.sortedTroves a = true)
    (hpd : getPendingSIMDebtReward s a = .ok pd) : (trove s a).debt + pd = settledDebt s a := by
  unfold Protocol.settledDebt
  by_cases hhas : hasPendingRewards s a = true
  · have hactive : (trove s a).status = .active := by
      simp only [hasPendingRewards, decide_eq_true_eq] at hhas
      exact hhas.1
    obtain ⟨-, hpd⟩ := pendingReward_ok hpd
    rw [if_pos hhas, hpd, if_pos hactive]
  · have hpd0 : pd = 0 := by
      by_contra h0
      exact hhas (h a pd ha hpd (Nat.pos_of_ne_zero h0))
    rw [if_neg hhas, hpd0]

/-- and so is the simulated collateral: `hasPendingRewards` goes by the collateral -/
theorem settledColl_eq {pw : ℕ} (hpw : getPendingWSTETHReward s a = .ok pw) : (trove s a).coll + pw = settledColl s a := by
  obtain ⟨hle, hpw⟩ := pendingReward_ok hpw
  unfold settledColl
  by_cases hhas : hasPendingRewards s a = true
  · have hactive : (trove s a).status = .active := by
      simp only [hasPendingRewards, decide_eq_true_eq] at hhas
      exact hhas.1
    rw [if_pos hhas, hpw, if_pos hactive]
  · have hpw0 : pw = 0 := by
      rw [hpw]
      by_cases hactive : (trove s a).status = .active
      · have hsame : ¬ (s.troveManager.rewardSnapshots a).WSTETH < s.troveManager.L_WSTETH := by
          simp only [hasPendingRewards, decide_eq_true_eq, not_and] at hhas
          exact hhas hactive
        rw [if_pos hactive, Nat.le_antisymm (Nat.not_lt.1 hsame) hle, Nat.sub_self, Nat.mul_zero, Nat.zero_div]
      · rw [if_neg hactive]
    rw [if_neg hhas, hpw0]

/-- what a simulation returns: the troves `bs` take what it takes off the amount, with its hint, and nothing above -/
structure Maximal (s : System) (price : ℕ) (bs : List Address) (amount NICR rest : ℕ) : Prop where
  le : rest ≤ amount
  all : TakesAll s price NICR bs (amount - rest)
  max : ∀ more NICR', amount - rest < more → more ≤ amount → ¬ TakesAll s price NICR' bs more

theorem Maximal.nothing (amount : ℕ) : Maximal s price [] amount 0 amount :=
  ⟨le_rfl, Nat.sub_self _, fun more _ hlt _ h0 => absurd (show more = 0 from h0) (by omega)⟩

theorem Maximal.done (bs : List Address) : Maximal s price bs 0 0 0 :=
  ⟨le_rfl, takesAll_zero bs, fun more _ hlt hle => absurd hlt (by omega)⟩

/-- a trove that is paid off -/
theorem Maximal.paid {rest : ℕ} (h : Maximal s price bs (amount - settledDebt s b) NICR rest)
    (hle : settledDebt s b ≤ amount) : Maximal s price (b :: bs) amount NICR rest := by
  have hrest := h.le
  refine ⟨by omega, .inr (.inl ⟨by omega, ?_⟩), fun more NICR' hlt hmore hall => ?_⟩
  · rw [Nat.sub_right_comm]
    exact h.all
  · rcases hall with h0 | ⟨-, hall⟩ | ⟨hpart, -⟩
    · omega
    · exact h.max _ NICR' (by omega) (by omega) hall
    · omega

/-- a trove that is left with the minimum debt, or more -/
theorem Maximal.left_ {x : ℕ} (hlt : amount < settledDebt s b) (hmin : MIN_NET_DEBT < settledDebt s b)
    (hx : x = min amount (settledDebt s b - MIN_NET_DEBT))
    (hNICR : computeNominalCR (settledColl s b - x * DECIMAL_PRECISION / price) (settledDebt s b - x) = .ok NICR) :
    Maximal s price (b :: bs) amount NICR (amount - x) := by
  have htaken : amount - (amount - x) = x := by omega
  refine ⟨Nat.sub_le _ _, ?_, fun more NICR' hmore hle hall => ?_⟩
  · rw [htaken]
    refine .inr (.inr ⟨by omega, by omega, fun y hy => ?_⟩)
    rw [hNICR] at hy
    exact (Except.ok.inj hy).symm
  · rw [htaken] at hmore
    rcases hall with h0 | ⟨hpaid, -⟩ | ⟨-, hleft, -⟩ <;> omega

/-- a trove whose debt is too small to leave some of it -/
theorem Maximal.refused (hlt : amount < settledDebt s b) (hmin : ¬ MIN_NET_DEBT < settledDebt s b) :
    Maximal s price (b :: bs) amount 0 amount := by
  refine ⟨le_rfl, ?_, fun more NICR' hmore hle hall => ?_⟩
  · rw [Nat.sub_self]
    exact takesAll_zero _
  · rcases hall with h0 | ⟨hpaid, -⟩ | ⟨-, hleft, -⟩ <;> omega

/-- **The simulation finds the maximum**, over one trove less than its cap says. -/
theorem hintsLoop_max {zs : List Address} {rest : ℕ} (hc : SortedTroves.IsChain s.sortedTroves (xs ++ zs))
    (hreported : RewardsReported s) (h : hintsLoop s price n (xs.getLastD 0) amount = .ok (NICR, rest)) :
    Maximal s price (xs.reverse.take (n - 1)) amount NICR rest := by
  induction n generalizing xs zs amount with
  | zero =>
    cases h
    exact .nothing _
  | succ n ih =>
    unfold hintsLoop at h
    rw [Nat.add_sub_cancel]
    by_cases hdone : xs.getLastD 0 = 0 ∨ amount = 0 ∨ n = 0
    · rw [if_pos hdone] at h
      cases h
      rcases hdone with h0 | rfl | rfl
      · rw [(hc.getLastD_eq_zero rfl).1 h0, List.reverse_nil, List.take_nil]
        exact .nothing _
      · exact .done _
      · exact .nothing _
    rw [if_neg hdone] at h
    simp only [not_or] at hdone
    obtain ⟨hb, -, hn⟩ := hdone
    obtain ⟨m, rfl⟩ := Nat.exists_eq_succ_of_ne_zero hn
    obtain ⟨us, hus⟩ := getLastD_cases xs rfl hb
    generalize xs.getLastD 0 = b at *
    subst hus
    rw [reverse_take_succ]
    obtain ⟨pd, hpd, h⟩ := bind_ok.1 h
    have hdebt := hreported.settledDebt ((hc.contains_iff b).2 (by simp)) hpd
    simp only [uadd_bind, getNetDebt, hdebt] at h
    obtain ⟨-, h⟩ := h
    split_ifs at h with hlt hmin
    · obtain ⟨pw, hpw, h⟩ := bind_ok.1 h
      simp only [uadd_bind, umul_bind, udiv_bind, usub_bind, settledColl_eq hpw, getCompositeDebt] at h
      obtain ⟨-, -, -, -, -, h⟩ := h
      obtain ⟨x, hx, h⟩ := bind_ok.1 h
      cases h
      exact .left_ hlt hmin rfl hx
    · cases h
      exact .refused hlt hmin
    · rw [List.append_assoc] at hc
      rw [hc.getPrev_eq] at h
      exact (ih hc h).paid (Nat.not_lt.1 hlt)

/-! ## They agree, up to the cap -/

/-- after the first `k - 1` troves, some of the amount is left for the `k`-th -/
def LeftForLast (s : System) (price amount k : ℕ) : Prop :=
  ∃ first b, firstRedeemable s price = .ok first ∧ (lastNodes s.sortedTroves k first)[k - 1]? = some b ∧
    Spills s amount (lastNodes s.sortedTroves (k - 1) first) b

/-- each redemption of `amount` that goes through takes all of it, with this hint and whatever position -/
def BurnsAll (c : Config) (s : System) (price amount : ℕ) (first : Address) (NICR k : ℕ) : Prop :=
  ∀ env sender upper lower maxFee s', env.fetchPrice = .ok price →
    redeemCollateral c env sender s ⟨amount, first, ⟨upper, lower, NICR⟩, k, maxFee⟩ = .ok s' →
      s.sim.burn sender amount = .ok s'.sim

/-- none does -/
def NeverBurnsAll (c : Config) (s : System) (price amount : ℕ) (first : Address) (NICR k : ℕ) : Prop :=
  ∀ env sender upper lower maxFee s', env.fetchPrice = .ok price →
    redeemCollateral c env sender s ⟨amount, first, ⟨upper, lower, NICR⟩, k, maxFee⟩ = .ok s' →
      s.sim.burn sender amount ≠ .ok s'.sim

/-- an uncapped walk has room for all troves there can be -/
theorem length_lt_uintMax {ids : List Address} (hc : SortedTroves.IsChain s.sortedTroves ids) : ids.length < uintMax - 1 := by
  have hle := hc.nodup.length_le_card
  have hcard : Fintype.card Address = 2 ^ 160 := Fintype.card_fin _
  rw [hcard] at hle
  exact hle.trans_lt (by decide)

/-- a walk that reaches a `k`-th trove has a cap -/
theorem iterationCap_eq {users : List Address} (h : (users.take k)[k - 1]? = some b) : iterationCap k = k := by
  rw [iterationCap, if_neg]
  rintro rfl
  cases h

/-- the troves a redemption goes through are those of the simulation, and the `k`-th -/
theorem take_iterationCap {ids : List Address} (hc : SortedTroves.IsChain s.sortedTroves (xs ++ ids)) (k : ℕ) :
    xs.reverse.take (iterationCap k) =
      xs.reverse.take (iterationCap k - 1) ++ (xs.reverse.take k)[k - 1]?.toList := by
  cases k with
  | zero =>
    have hlen := length_lt_uintMax hc
    rw [List.length_append] at hlen
    rw [iterationCap, if_pos rfl, List.take_of_length_le (by simp; omega), List.take_of_length_le (by simp; omega)]
    exact (List.append_nil _).symm
  | succ m =>
    rw [iterationCap, if_neg (Nat.succ_ne_zero m), Nat.add_sub_cancel, List.getElem?_take_of_lt (Nat.lt_succ_self m),
      ← List.take_add_one]

/-- **Redemption hints and redemption agree, up to the cap.** What `getRedemptionHints` names, a redemption with its hints
burns in full. It is the maximum unless the first `k - 1` troves leave some of the amount for the `k`-th, which the
redemption considers and the simulation does not; then a larger amount is burned in full. -/
theorem redemptionHints_agree (c : Config) (s : System) (ids : List Address) (hc : SortedTroves.IsChain s.sortedTroves ids)
    (hreported : RewardsReported s) (price amount k : ℕ) (hints : RedemptionHints)
    (hhints : getRedemptionHints s amount price k = .ok hints) :
    (0 < hints.truncatedSIMamount →
      BurnsAll c s price hints.truncatedSIMamount hints.firstRedemptionHint hints.partialRedemptionHintNICR k) ∧
    (¬ LeftForLast s price amount k → ∀ more NICR, hints.truncatedSIMamount < more → more ≤ amount →
      NeverBurnsAll c s price more hints.firstRedemptionHint NICR k) ∧
    (LeftForLast s price amount k → ∃ more NICR, hints.truncatedSIMamount < more ∧ more ≤ amount ∧
      BurnsAll c s price more hints.firstRedemptionHint NICR k) := by
  obtain ⟨first, hfirst, hhints⟩ := bind_ok.1 hhints
  obtain ⟨⟨NICR, rest⟩, hloop, hhints⟩ := bind_ok.1 hhints
  simp only [usub_bind, pure_ok] at hhints
  obtain ⟨-, rfl⟩ := hhints
  dsimp only
  obtain ⟨xs, hw, rfl⟩ := exists_walk hc (firstRedeemable_mem hc hfirst)
  obtain ⟨zs, hstart⟩ := hw.start
  have hmax := hintsLoop_max hstart hreported hloop
  -- a redemption burns its amount iff the nodes of its walk take it
  have hburns : ∀ {more NICR env sender upper lower maxFee s'}, env.fetchPrice = .ok price →
      redeemCollateral c env sender s ⟨more, xs.getLastD 0, ⟨upper, lower, NICR⟩, k, maxFee⟩ = .ok s' →
        (s.sim.burn sender more = .ok s'.sim ↔ TakesAll s price NICR (xs.reverse.take (iterationCap k)) more) := by
    intro more NICR env sender upper lower maxFee s' hprice h
    rw [← lastNodes_eq hstart]
    exact redeemCollateral_burns hc hfirst hprice h
  have hcap := take_iterationCap hstart k
  refine ⟨?_, fun hno => ?_, fun hyes => ?_⟩
  · intro _ env sender upper lower maxFee s' hprice h
    rw [hburns hprice h, hcap]
    exact hmax.all.append _
  · intro more NICR' hlt hle env sender upper lower maxFee s' hprice h hall
    rw [hburns hprice h, hcap] at hall
    cases hlast : (xs.reverse.take k)[k - 1]? with
    | none =>
      rw [hlast, Option.toList_none, List.append_nil] at hall
      exact hmax.max more NICR' hlt hle hall
    | some b =>
      rw [hlast] at hall
      refine hmax.max more NICR' hlt hle (hall.capped hle fun hspills => hno ⟨_, b, hfirst, ?_, ?_⟩)
      · rwa [lastNodes_eq hstart]
      · rwa [iterationCap_eq hlast, ← lastNodes_eq hstart] at hspills
  · obtain ⟨first, b, hfirst', hlast, hspills⟩ := hyes
    cases hfirst.symm.trans hfirst'
    rw [lastNodes_eq hstart] at hlast hspills
    rw [iterationCap_eq hlast] at hmax hcap
    obtain ⟨more, NICR', hsum, hle, htakes⟩ := hspills.takes_more
    refine ⟨more, NICR', hmax.all.le.trans_lt hsum, hle, ?_⟩
    intro env sender upper lower maxFee s' hprice h
    rw [hburns hprice h, iterationCap_eq hlast, hcap, hlast]
    exact htakes

theorem rewardsReported_twoTroves : RewardsReported (reached exampleConfig twoTroves) := by
  have hL : (reached exampleConfig twoTroves).troveManager.L_SIMDebt = 0 := by decide +kernel
  intro a pd _ hpd hpos
  obtain ⟨-, hpd⟩ := pendingReward_ok hpd
  rw [hL, Nat.zero_sub, Nat.mul_zero, Nat.zero_div, ite_self] at hpd
  omega

/-- with a cap of 2, all of Alice's debt -/
theorem redemptionHints_agree_alice :
    getRedemptionHints (reached exampleConfig twoTroves) (1005 * 10 ^ 15) (2000 * 10 ^ 18) 2 =
        .ok ⟨1, 0, 1005 * 10 ^ 15⟩ ∧
      BurnsAll exampleConfig (reached exampleConfig twoTroves) (2000 * 10 ^ 18) (1005 * 10 ^ 15) 1 0 2 := by
  obtain ⟨ids, hc, -⟩ := (reached_registry twoTroves).list
  have hhints : getRedemptionHints (reached exampleConfig twoTroves) (1005 * 10 ^ 15) (2000 * 10 ^ 18) 2 =
      .ok ⟨1, 0, 1005 * 10 ^ 15⟩ := by
    decide +kernel
  exact ⟨hhints, (redemptionHints_agree exampleConfig _ ids hc rewardsReported_twoTroves (2000 * 10 ^ 18) (1005 * 10 ^ 15) 2 _
    hhints).1 (by decide)⟩

/-- with a cap of 1, nothing is hinted at; but Bob redeems all of Alice's debt -/
theorem redemptionHints_off_by_one :
    let s := reached exampleConfig twoTroves
    OrderedByICR s (2000 * 10 ^ 18) ∧ RewardsReported s ∧
      getRedemptionHints s (1005 * 10 ^ 15) (2000 * 10 ^ 18) 1 = .ok ⟨1, 0, 0⟩ ∧
      ∃ s', redeemCollateral exampleConfig (atPrice (2000 * 10 ^ 18) bob (.closeTrove)).env bob.address s
          ⟨1005 * 10 ^ 15, 1, ⟨0, 0, 0⟩, 1, 10 ^ 18⟩ = .ok s' ∧
        s.sim.burn bob.address (1005 * 10 ^ 15) = .ok s'.sim := by
  intro s
  obtain ⟨ids, hc, -⟩ := (reached_registry twoTroves).list
  obtain ⟨s', hs'⟩ : ∃ s', redeemCollateral exampleConfig (atPrice (2000 * 10 ^ 18) bob (.closeTrove)).env bob.address s
      ⟨1005 * 10 ^ 15, 1, ⟨0, 0, 0⟩, 1, 10 ^ 18⟩ = .ok s' := Res.failure_none (by decide +kernel)
  refine ⟨orderedByICR_of_nodes (reached_registry twoTroves) (by decide +kernel), rewardsReported_twoTroves,
    by decide +kernel, s', hs', ?_⟩
  have hfirst : firstRedeemable s (2000 * 10 ^ 18) = .ok 1 := by decide +kernel
  have hnodes : lastNodes s.sortedTroves (iterationCap 1) 1 = [1] := by decide +kernel
  rw [redeemCollateral_burns hc hfirst rfl hs', hnodes]
  have hdebt : settledDebt s 1 = 1005 * 10 ^ 15 := by decide +kernel
  exact .inr (.inl ⟨hdebt.le, Nat.sub_eq_zero_of_le hdebt.ge⟩)

end SimContracts.Protocol
