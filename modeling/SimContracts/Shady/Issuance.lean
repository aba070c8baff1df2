/-
The issuance schedule. `issueSHADY` returns what the schedule has reached since the last call, so it reverts if the
schedule ever falls. The schedule is `30e24 * (1 - f ^ minutes)` with the power computed by square-and-multiply, each
multiplication rounded. It does not fall, since the power of a fraction never grows with the exponent.

Results:
  schedule_mono       the schedule does not fall
  issuance_schedule   issuing never reverts, the amounts issued add up to the schedule at the last call, and the amounts
                      sent to at most that
-/
import SimContracts.DecPow
import SimContracts.Shady.System

namespace SimContracts.Shady

open Solidity

/-! ## The schedule -/

/-- `30e24 * (1e18 - f ^ minutes) / 1e18` -/
def schedule (minutes : ℕ) : ℕ :=
  SHADYSupplyCap * (DECIMAL_PRECISION - (decPow ISSUANCE_FACTOR minutes).shown) / DECIMAL_PRECISION

/-- `f ^ minutes` -/
def factorPower (minutes : ℕ) : ℕ := Power.power roundedMul 29 ISSUANCE_FACTOR DECIMAL_PRECISION (min minutes 525600000)

theorem decPow_factor (minutes : ℕ) : decPow ISSUANCE_FACTOR minutes = .ok (factorPower minutes) :=
  decPow_ok (by decide) minutes

theorem schedule_eq (minutes : ℕ) :
    schedule minutes = SHADYSupplyCap * (DECIMAL_PRECISION - factorPower minutes) / DECIMAL_PRECISION := by
  rw [schedule, decPow_factor]
  rfl

theorem factorPower_antitone : Antitone factorPower := by
  intro m n h
  exact power_falls (by decide) (capped_lt m) (capped_lt n) (min_le_min_right _ h)

theorem factorPower_le (minutes : ℕ) : factorPower minutes ≤ DECIMAL_PRECISION := by
  have h := factorPower_antitone (Nat.zero_le minutes)
  rwa [factorPower, factorPower, Nat.zero_min, Power.power_zero] at h

/-- **The schedule does not fall.** -/
theorem schedule_mono : Monotone schedule := by
  intro m n h
  rw [schedule_eq, schedule_eq]
  exact Nat.div_le_div_right (Nat.mul_le_mul_left _ (Nat.sub_le_sub_left (factorPower_antitone h) _))

theorem schedule_zero : schedule 0 = 0 := by
  rw [schedule_eq, factorPower, Nat.zero_min, Power.power_zero, Nat.sub_self]
  rfl

theorem schedule_le (minutes : ℕ) : schedule minutes ≤ SHADYSupplyCap := by
  rw [schedule_eq]
  refine Nat.div_le_of_le_mul ?_
  rw [Nat.mul_comm]
  exact Nat.mul_le_mul_right _ (Nat.sub_le _ _)

/-! ## Calls -/

variable {cfg : Config} {s s' : State} {tx : Tx cfg} {env : Env cfg} {p : Program}

/-- minutes since the deployment of the issuance contract -/
def minutesSince (cfg : Config) (p : Program) (time : ℕ) : ℕ := (time - cfg.deploymentTime p) / SECONDS_IN_ONE_MINUTE

theorem minutesSince_mono : Monotone (minutesSince cfg p) :=
  fun _ _ h => Nat.div_le_div_right (Nat.sub_le_sub_right h _)

theorem getCumulativeIssuanceFraction_eq {time : ℕ} (h : cfg.deploymentTime p ≤ time) :
    getCumulativeIssuanceFraction cfg time p = .ok (DECIMAL_PRECISION - factorPower (minutesSince cfg p time)) := by
  unfold getCumulativeIssuanceFraction
  simp only [usub_bind, decPow_factor, ok_bind, assert_bind, pure_ok]
  exact ⟨h, factorPower_le _, Nat.sub_le _ _, rfl⟩

/-- the issuer's call goes through as long as no more is issued than the schedule allows -/
theorem issueSHADY_eq (hsender : env.sender = cfg.issuerAddress p) (htime : cfg.deploymentTime p ≤ env.timestamp)
    (hle : s.totalSHADYIssued p ≤ schedule (minutesSince cfg p env.timestamp)) :
    issueSHADY s env p = .ok ({ s with
      totalSHADYIssued := Function.update s.totalSHADYIssued p (schedule (minutesSince cfg p env.timestamp)) },
      schedule (minutesSince cfg p env.timestamp) - s.totalSHADYIssued p) := by
  have hfits : SHADYSupplyCap * (DECIMAL_PRECISION - factorPower (minutesSince cfg p env.timestamp)) < 2 ^ 256 :=
    (Nat.mul_le_mul_left _ (Nat.sub_le _ _)).trans_lt (by decide : SHADYSupplyCap * DECIMAL_PRECISION < 2 ^ 256)
  rw [schedule_eq] at hle ⊢
  unfold issueSHADY requireCallerIsIssuer
  simp only [require_bind, getCumulativeIssuanceFraction_eq htime, ok_bind, umul_bind, usub_bind, pure_ok]
  exact ⟨hsender, hfits, hle, trivial⟩

/-- the call is the issuer's call of `issueSHADY` -/
def Tx.issues (tx : Tx cfg) (p : Program) : Bool :=
  match tx.call with
  | .issueSHADY q => q = p ∧ tx.env.sender = cfg.issuerAddress p
  | _ => false

/-- the amount a call of `issueSHADY` returns -/
def issued (p : Program) (s : State) (tx : Tx cfg) : ℕ :=
  match tx.call with
  | .issueSHADY q => if q = p then Res.shown ((issueSHADY s tx.env p).map Prod.snd) else 0
  | _ => 0

/-- the amount a call of `sendSHADY` sends -/
def sent (p : Program) (s : State) (tx : Tx cfg) : ℕ :=
  match tx.call with
  | .sendSHADY q account amount => if q = p then Res.shown ((sendSHADY s tx.env p account amount).map fun _ => amount) else 0
  | _ => 0

/-- the time of the issuer's last call of `issueSHADY`, or of the deployment -/
def lastIssue (cfg : Config) (p : Program) (txs : List (Tx cfg)) : ℕ :=
  txs.foldl (fun time tx => if tx.issues p then tx.env.timestamp else time) (cfg.deploymentTime p)

/-- only its own `sendSHADY` changes what an issuance contract has -/
theorem Payment.issuance {b' : Address → ℕ} (hinv : Inv cfg s) (h : Payment s tx b')
    (hsend : ∀ account amount, tx.call ≠ .sendSHADY p account amount) :
    b' (cfg.issuanceAddress p) = s.token.erc20.balanceOf (cfg.issuanceAddress p) := by
  have hpaid : ∀ {src dst amount}, Paid cfg (isRegisteredLockup s) tx.env.timestamp s.token.erc20.balanceOf b' src dst
      amount → cfg.issuanceAddress p ≠ src →
      b' (cfg.issuanceAddress p) = s.token.erc20.balanceOf (cfg.issuanceAddress p) := by
    intro src dst amount hpaid hsrc
    have hbalance := hpaid.balance (cfg.issuanceAddress p)
    rwa [if_neg hsrc, if_neg (hpaid.issuance p).symm] at hbalance
  cases h with
  | moved h =>
    rcases h with rfl | ⟨src, dst, amount, hrole, h⟩
    · rfl
    · exact hpaid h (issuanceAddress_ne_account hrole)
  | withdrawn lockup contract amount hlockup _ h =>
    refine hpaid h (ne_of_role (?_ : cfg.role _ ≠ cfg.role _))
    rw [cfg.role_issuance, (hinv.lockups lockup contract hlockup).1]
    exact nofun
  | sent q account amount hcall _ h =>
    refine hpaid h (issuanceAddress_ne ?_)
    rintro rfl
    exact hsend account amount hcall

/-- what a call sends leaves the issuance contract, and is covered by what was issued -/
theorem exec_sent (hinv : Inv cfg s) (h : exec s tx = .ok s') :
    s'.token.erc20.balanceOf (cfg.issuanceAddress p) + sent p s tx =
        s.token.erc20.balanceOf (cfg.issuanceAddress p) ∧
      (sent p s tx = 0 ∨ SHADYSupplyCap - s.totalSHADYIssued p + sent p s tx ≤
        s.token.erc20.balanceOf (cfg.issuanceAddress p)) := by
  by_cases hsend : ∃ account amount, tx.call = .sendSHADY p account amount
  · obtain ⟨account, amount, hcall⟩ := hsend
    have h : sendSHADY s tx.env p account amount = .ok s' := by
      rw [exec, hcall] at h
      exact h
    have hsent : sent p s tx = amount := by
      simp only [sent, hcall, if_true, h]
      rfl
    obtain ⟨hfunds, token, htransfer, rfl⟩ := sendSHADY_ok h
    have hpaid := (transfer_paid htransfer).2
    have hbalance := hpaid.balance (cfg.issuanceAddress p)
    rw [if_pos rfl, if_neg (hpaid.issuance p).symm] at hbalance
    rw [hsent]
    exact ⟨hbalance, .inr hfunds⟩
  · have hzero : sent p s tx = 0 := by
      unfold sent
      split
      · rename_i q account amount hcall
        rw [if_neg]
        rintro rfl
        exact hsend ⟨account, amount, hcall⟩
      · rfl
    rw [hzero, (exec_balances hinv h).2.issuance hinv fun account amount hcall => hsend ⟨account, amount, hcall⟩]
    exact ⟨rfl, .inl rfl⟩

/-- what a call issues is what it adds to the total -/
theorem exec_issued (h : exec s tx = .ok s') : s'.totalSHADYIssued p = s.totalSHADYIssued p + issued p s tx := by
  obtain ⟨env, call⟩ := tx
  cases call with
  | token call =>
    obtain ⟨token, -, h⟩ := bind_ok.1 h
    obtain rfl := pure_ok.1 h
    rfl
  | deployLockupContract lockup hrole beneficiary unlockTime =>
    obtain ⟨-, rfl⟩ := deployLockupContract_ok h
    rfl
  | withdrawSHADY lockup =>
    rcases withdrawSHADY_ok h with rfl | ⟨contract, token, -, -, -, rfl⟩
    · rfl
    · rfl
  | issueSHADY q =>
    obtain ⟨⟨s₁, issuance⟩, hissue, h⟩ := bind_ok.1 h
    obtain rfl := pure_ok.1 h
    obtain ⟨-, hs⟩ := issueSHADY_ok hissue
    by_cases hq : q = p
    · subst hq
      simp only [issued, if_true, hissue]
      rw [hs]
      exact Function.update_self ..
    · simp only [issued, if_neg hq]
      rw [hs]
      exact Function.update_of_ne (Ne.symm hq) ..
  | sendSHADY q account amount =>
    obtain ⟨-, token, -, rfl⟩ := sendSHADY_ok h
    rfl

/-- a call that reverts issues and sends nothing -/
theorem nothing_of_error {e : Revert} (h : exec s tx = .error e) : issued p s tx = 0 ∧ sent p s tx = 0 := by
  obtain ⟨env, call⟩ := tx
  cases call with
  | issueSHADY q =>
    refine ⟨?_, rfl⟩
    simp only [issued]
    split_ifs with hq
    · subst hq
      cases hissue : issueSHADY s env q with
      | ok r =>
        simp only [exec, hissue, ok_bind] at h
        exact nomatch h
      | error e => rfl
    · rfl
  | sendSHADY q account amount =>
    refine ⟨rfl, ?_⟩
    simp only [sent]
    split_ifs with hq
    · subst hq
      have h : sendSHADY s env q account amount = .error e := h
      rw [h]
      rfl
    · rfl
  | _ => exact ⟨rfl, rfl⟩

/-- nobody but the issuer issues -/
theorem issued_of_not_issues (h : exec s tx = .ok s') (hissues : tx.issues p = false) : issued p s tx = 0 := by
  obtain ⟨env, call⟩ := tx
  cases call with
  | issueSHADY q =>
    simp only [issued]
    rw [if_neg]
    rintro rfl
    obtain ⟨r, hissue, -⟩ := bind_ok.1 h
    obtain ⟨⟨⟩, hsender, -⟩ := bind_ok.1 hissue
    have hsender : env.sender = cfg.issuerAddress q := require_ok.1 hsender
    simp [Tx.issues, hsender] at hissues
  | _ => rfl

/-! ## Histories -/

section Histories

variable {txs : List (Tx cfg)} {time : ℕ}

theorem lastIssue_snoc (txs : List (Tx cfg)) (tx : Tx cfg) :
    lastIssue cfg p (txs ++ [tx]) = if tx.issues p then tx.env.timestamp else lastIssue cfg p txs := by
  simp [lastIssue, List.foldl_append]

theorem lastIssue_le (hstart : cfg.deploymentTime p ≤ time) (htime : ∀ tx ∈ txs, tx.env.timestamp ≤ time) :
    lastIssue cfg p txs ≤ time := by
  induction txs using List.reverseRecOn with
  | nil => exact hstart
  | append_singleton txs tx ih =>
    rw [lastIssue_snoc]
    split_ifs
    · exact htime tx (by simp)
    · exact ih fun tx' h => htime tx' (List.mem_append_left _ h)

/-- what is true of an issuance contract after a history -/
structure Books (cfg : Config) (p : Program) (s₀ : State) (txs : List (Tx cfg)) (s : State) : Prop where
  inv : Inv cfg s
  issued : s.totalSHADYIssued p = total exec (issued p) s₀ txs
  /-- the total is the schedule at the issuer's last call -/
  schedule : s.totalSHADYIssued p = schedule (minutesSince cfg p (lastIssue cfg p txs))
  balance : s.token.erc20.balanceOf (cfg.issuanceAddress p) + total exec (sent p) s₀ txs = SHADYSupplyCap
  sent_le : total exec (sent p) s₀ txs ≤ s.totalSHADYIssued p

theorem Books.deploy (hs : deploy cfg = .ok s) : Books cfg p s [] s := by
  obtain ⟨hinv, hbalance, -, hissued⟩ := deploy_ok hs
  refine ⟨hinv, congrFun hissued p, ?_, hbalance p, Nat.zero_le _⟩
  rw [hissued]
  show 0 = Shady.schedule ((cfg.deploymentTime p - cfg.deploymentTime p) / SECONDS_IN_ONE_MINUTE)
  rw [Nat.sub_self, Nat.zero_div, schedule_zero]

/-- the issuer's call goes through -/
theorem Books.issue {s₀ : State} (hbooks : Books cfg p s₀ txs s) (hissues : tx.issues p)
    (hstart : cfg.deploymentTime p ≤ tx.env.timestamp) (hlast : lastIssue cfg p txs ≤ tx.env.timestamp) :
    ∃ s', exec s tx = .ok s' ∧
      s'.totalSHADYIssued p = Shady.schedule (minutesSince cfg p tx.env.timestamp) := by
  obtain ⟨env, call⟩ := tx
  cases call with
  | issueSHADY q =>
    obtain ⟨rfl, hsender⟩ : q = p ∧ env.sender = cfg.issuerAddress p := by simpa [Tx.issues] using hissues
    have hle := hbooks.schedule.trans_le (schedule_mono (minutesSince_mono hlast))
    let total := Function.update s.totalSHADYIssued q (Shady.schedule (minutesSince cfg q env.timestamp))
    refine ⟨{ s with totalSHADYIssued := total }, ?_, Function.update_self ..⟩
    rw [exec]
    simp only [issueSHADY_eq hsender hstart hle, ok_bind]
    rfl
  | _ => simp [Tx.issues] at hissues

theorem Books.step {s₀ : State} (hbooks : Books cfg p s₀ txs s) (hrun : s = run exec s₀ txs)
    (hstart : cfg.deploymentTime p ≤ tx.env.timestamp) (hlast : lastIssue cfg p txs ≤ tx.env.timestamp) :
    Books cfg p s₀ (txs ++ [tx]) (commit s (exec s tx)) := by
  cases h : exec s tx with
  | error e =>
    obtain ⟨hissued, hsent⟩ := nothing_of_error (p := p) h
    have hissues : ¬ tx.issues p := by
      intro hissues
      obtain ⟨s', hs', -⟩ := hbooks.issue hissues hstart hlast
      rw [h] at hs'
      exact nomatch hs'
    refine ⟨hbooks.inv, ?_, ?_, ?_, ?_⟩
    · rw [total_snoc, ← hrun, hissued, Nat.add_zero]
      exact hbooks.issued
    · rw [lastIssue_snoc, if_neg hissues]
      exact hbooks.schedule
    · rw [total_snoc, ← hrun, hsent, Nat.add_zero]
      exact hbooks.balance
    · rw [total_snoc, ← hrun, hsent, Nat.add_zero]
      exact hbooks.sent_le
  | ok s' =>
    have hissued := exec_issued (p := p) h
    obtain ⟨hbalance, hcovered⟩ := exec_sent (p := p) hbooks.inv h
    have hcap := hbooks.schedule.trans_le (schedule_le _)
    have hbefore := hbooks.balance
    have hsent := hbooks.sent_le
    refine ⟨(exec_balances hbooks.inv h).1, ?_, ?_, ?_, ?_⟩
    · rw [total_snoc, ← hrun, ← hbooks.issued]
      exact hissued
    · rw [lastIssue_snoc]
      split_ifs with hissues
      · obtain ⟨s'', hs'', hschedule⟩ := hbooks.issue hissues hstart hlast
        rw [h] at hs''
        obtain rfl := Except.ok.inj hs''
        exact hschedule
      · show s'.totalSHADYIssued p = _
        rw [hissued, issued_of_not_issues h (by simpa using hissues), Nat.add_zero]
        exact hbooks.schedule
    · rw [total_snoc, ← hrun]
      show s'.token.erc20.balanceOf _ + _ = _
      omega
    · rw [total_snoc, ← hrun]
      show _ ≤ s'.totalSHADYIssued p
      omega

theorem books_run {s₀ : State} (hs : Shady.deploy cfg = .ok s₀) (txs : List (Tx cfg))
    (hstart : ∀ tx ∈ txs, cfg.deploymentTime p ≤ tx.env.timestamp)
    (htime : txs.Pairwise fun tx tx' => tx.env.timestamp ≤ tx'.env.timestamp) :
    Books cfg p s₀ txs (run exec s₀ txs) := by
  induction txs using List.reverseRecOn with
  | nil => exact .deploy hs
  | append_singleton txs tx ih =>
    obtain ⟨hearlier, -, hlater⟩ := List.pairwise_append.1 htime
    have hnow := hstart tx (by simp)
    rw [run_snoc]
    refine (ih (fun tx' h => hstart tx' (List.mem_append_left _ h)) hearlier).step rfl hnow (lastIssue_le hnow ?_)
    exact fun tx' h => hlater tx' h tx (by simp)

end Histories

/-! ## Main result -/

/-- **The issuance schedule.** After any history in the order of time: the issuer's next call of `issueSHADY` does not
revert, the amounts its calls returned add up to the schedule at the last of them, and the amounts sent add up to no
more than that, so to no more than 30 million. -/
theorem issuance_schedule (hs : deploy cfg = .ok s) (p : Program) (txs : List (Tx cfg))
    (hstart : ∀ tx ∈ txs, cfg.deploymentTime p ≤ tx.env.timestamp)
    (htime : txs.Pairwise fun tx tx' => tx.env.timestamp ≤ tx'.env.timestamp) :
    (∀ tx : Tx cfg, tx.issues p → cfg.deploymentTime p ≤ tx.env.timestamp →
      (∀ tx' ∈ txs, tx'.env.timestamp ≤ tx.env.timestamp) → Succeeds (exec (run exec s txs) tx)) ∧
    total exec (issued p) s txs = schedule (minutesSince cfg p (lastIssue cfg p txs)) ∧
    total exec (sent p) s txs ≤ total exec (issued p) s txs ∧
    total exec (issued p) s txs ≤ SHADYSupplyCap := by
  have hbooks := books_run (p := p) hs txs hstart htime
  refine ⟨?_, hbooks.issued.symm.trans hbooks.schedule, hbooks.sent_le.trans_eq hbooks.issued, ?_⟩
  · intro tx hissues hnow hlast
    obtain ⟨s', hs', -⟩ := hbooks.issue hissues hnow (lastIssue_le hnow hlast)
    exact ⟨s', hs'⟩
  · exact (hbooks.issued.symm.trans hbooks.schedule).trans_le (schedule_le _)

def fromIssuer (timestamp : ℕ) (call : Call exampleConfig) : Tx exampleConfig :=
  ⟨⟨timestamp, 7, by decide, by decide⟩, call⟩

/-- issuing after a minute and after a year, with a payment in between -/
def oneYear : List (Tx exampleConfig) :=
  [fromIssuer 1060 (.issueSHADY .community), fromIssuer 1060 (.sendSHADY .community 3 (10 ^ 19)),
    fromIssuer 31537000 (.issueSHADY .community)]

theorem issuance_schedule_oneYear :
    ∃ s, deploy exampleConfig = .ok s ∧ total exec (issued .community) s oneYear = schedule 525600 ∧
      total exec (sent .community) s oneYear ≤ total exec (issued .community) s oneYear := by
  obtain ⟨s, hs⟩ : ∃ s, deploy exampleConfig = .ok s := Res.failure_none (by decide +kernel)
  obtain ⟨-, hissued, hsent, -⟩ := issuance_schedule hs .community oneYear (by decide) (by decide)
  exact ⟨s, hs, hissued, hsent⟩

example : (deploy exampleConfig).map (fun s => (total exec (issued .community) s oneYear,
    total exec (sent .community) s oneYear)) = .ok (14999999999999498970000000, 10 ^ 19) := by
  decide +kernel

end SimContracts.Shady
