/-
What the others can do to a deposit. As long as a depositor makes no call, the deposit and its snapshot stay as they are;
what it reads changes only through the product and the sums. Calls of other depositors leave the product and the
collateral sums alone. An offset lowers the product, counting the scale, and raises a sum. So a deposit left alone never
reads more than before, and its gains never less.

Results:
  OffsetStep.reading_le   an offset does not raise what a deposit reads
  left_alone              along any calls of others: the deposit does not grow, its gains do not fall, and without an
                          offset the deposit and its collateral gain are what they were
-/
import SimContracts.StabilityPool.Rewards

namespace SimContracts.StabilityPool

open Solidity

variable {s s' : Pool} {a b : Address}

/-! ## Who calls -/

/-- the depositor who makes the call -/
def Call.sender : Call → Option Address
  | .provideToSP sender _ _ | .withdrawFromSP sender _ _ _ | .withdrawWSTETHGainToTrove sender _ _ => some sender
  | .offset _ _ _ => none

/-- the call of a depositor, with both of its inversions -/
theorem exec_depositor {call : Call} (hcall : call.sender = some b) (h : exec s call = .ok s') :
    ∃ c d w issued shady, DepositorStep s s' b c d w ∧ DepositorPaid s s' b issued shady := by
  cases call with
  | provideToSP sender amount issued =>
    obtain rfl := Option.some.inj hcall
    obtain ⟨⟨_, p⟩, hp, ⟨⟩⟩ := bind_ok.1 h
    obtain ⟨c, hstep⟩ := provideToSP_ok hp
    exact ⟨c, _, _, _, _, hstep, provideToSP_paid hp⟩
  | withdrawFromSP sender amount issued lowestICR =>
    obtain rfl := Option.some.inj hcall
    obtain ⟨⟨_, p⟩, hp, ⟨⟩⟩ := bind_ok.1 h
    obtain ⟨c, -, hstep⟩ := withdrawFromSP_ok hp
    exact ⟨c, _, _, _, _, hstep, withdrawFromSP_paid hp⟩
  | withdrawWSTETHGainToTrove sender issued troveStatus =>
    obtain rfl := Option.some.inj hcall
    obtain ⟨⟨_, p⟩, hp, ⟨⟩⟩ := bind_ok.1 h
    obtain ⟨c, hstep⟩ := withdrawWSTETHGainToTrove_ok hp
    exact ⟨c, _, _, _, _, hstep, withdrawWSTETHGainToTrove_paid hp⟩
  | offset debt coll issued => exact nomatch hcall

/-! ## Readings -/

/-- a deposit of `d` made at the product `P₀`, read at the product `P` and `diff` scales later -/
def scaled (d P P₀ diff : ℕ) : ℕ :=
  if diff = 0 then d * P / P₀ else if diff = 1 then d * P / P₀ / SCALE_FACTOR else 0

/-- below a billionth of the deposit nothing is shown -/
def cutOff (d v : ℕ) : ℕ := if v < d / 10 ^ 9 then 0 else v

theorem cutOff_mono (d : ℕ) : Monotone (cutOff d) := by
  intro v v' h
  unfold cutOff
  split_ifs <;> omega

/-- what a deposit reads, where nothing overflows -/
def reading (s : Pool) (a : Address) : ℕ :=
  if (s.depositSnapshots a).epoch < s.currentEpoch then 0
  else cutOff (s.deposits a)
    (scaled (s.deposits a) s.P (s.depositSnapshots a).P (s.currentScale - (s.depositSnapshots a).scale))

theorem getCompoundedSIMDeposit_reading {c : ℕ} (h : getCompoundedSIMDeposit s a = .ok c) : c = reading s a := by
  unfold getCompoundedSIMDeposit at h
  unfold reading
  split_ifs at h with hd
  · cases h
    simp [hd, scaled, cutOff]
  · unfold getCompoundedStakeFromSnapshots at h
    split_ifs at h ⊢ with hepoch
    · cases h
      rfl
    · simp only [usub_bind] at h
      obtain ⟨v, hv, h⟩ := bind_ok.1 h.2
      rw [pure_ok] at h
      have hscaled : v = scaled (s.deposits a) s.P (s.depositSnapshots a).P
          (s.currentScale - (s.depositSnapshots a).scale) := by
        unfold compoundedByScale at hv
        unfold scaled
        split_ifs at hv ⊢
        · simp only [umul_bind, udiv_ok] at hv
          exact hv.2.2.symm
        · simp only [umul_bind, udiv_bind, udiv_ok] at hv
          exact hv.2.2.2.symm
        · cases hv
          rfl
      rw [← h, ← hscaled]
      rfl

/-- a lower product reads less -/
theorem scaled_le {d P P' P₀ diff : ℕ} (h : P' ≤ P) : scaled d P' P₀ diff ≤ scaled d P P₀ diff := by
  have hle : d * P' / P₀ ≤ d * P / P₀ := Nat.div_le_div_right (Nat.mul_le_mul_left _ h)
  unfold scaled
  split_ifs
  · exact hle
  · exact Nat.div_le_div_right hle
  · exact le_rfl

/-- the next scale reads no more, if the product is at most the factor times the old one -/
theorem scaled_succ_le {d P P' P₀ diff : ℕ} (h : P' ≤ P * SCALE_FACTOR) : scaled d P' P₀ (diff + 1) ≤ scaled d P P₀ diff := by
  unfold scaled
  by_cases h0 : diff = 0
  · subst h0
    have hpos : 0 < SCALE_FACTOR := by decide
    calc d * P' / P₀ / SCALE_FACTOR ≤ d * (P * SCALE_FACTOR) / P₀ / SCALE_FACTOR :=
          Nat.div_le_div_right (Nat.div_le_div_right (Nat.mul_le_mul_left _ h))
      _ = d * P / P₀ := by rw [Nat.div_div_eq_div_mul, ← Nat.mul_assoc, Nat.mul_div_mul_right _ _ hpos]
  · rw [if_neg (Nat.succ_ne_zero _), if_neg (by omega)]
    exact Nat.zero_le _

/-- **An offset.** It does not raise what a deposit reads. -/
theorem OffsetStep.reading_le {debt coll : ℕ} (h : OffsetStep s s' debt coll) (hs : Wf s) (a : Address) :
    reading s' a ≤ reading s a := by
  by_cases hd : s.deposits a = 0
  · have h0 : reading s' a = 0 := by simp [reading, h.deposits, hd, scaled, cutOff]
    rw [h0]
    exact Nat.zero_le _
  have hepoch := hs.epoch_le a hd
  unfold reading
  rw [h.deposits, h.snapshots]
  have hP : ∀ f ≤ DECIMAL_PRECISION, ∀ x, s.P * f * x / DECIMAL_PRECISION ≤ s.P * x := by
    intro f hf x
    refine Nat.div_le_of_le_mul ?_
    calc s.P * f * x = f * (s.P * x) := by ring
      _ ≤ DECIMAL_PRECISION * (s.P * x) := Nat.mul_le_mul_right _ hf
  rcases h.product with ⟨-, -, -, he⟩ | ⟨-, -, hnewP, hsc, he⟩ | ⟨-, -, hnewP, hsc, he⟩
  · rw [if_pos (by omega)]
    exact Nat.zero_le _
  · rw [he, hsc, hnewP]
    split_ifs with hold
    · exact le_rfl
    · have hscale := hs.scale_le a hd (by omega)
      rw [Nat.sub_add_comm hscale]
      exact cutOff_mono _ (scaled_succ_le (hP _ (Nat.sub_le _ _) _))
  · rw [he, hsc, hnewP]
    split_ifs with hold
    · exact le_rfl
    · have hle := hP _ (Nat.sub_le DECIMAL_PRECISION (simLoss s debt)) 1
      simp only [Nat.mul_one] at hle
      exact cutOff_mono _ (scaled_le hle)

/-- a gain as read from sums, where nothing overflows -/
def gainReading (sums : ℕ → ℕ → ℕ) (d sumSnapshot : ℕ) (t : Snapshots) : ℕ :=
  d * (sums t.epoch t.scale - sumSnapshot + sums t.epoch (t.scale + 1) / SCALE_FACTOR) / t.P / DECIMAL_PRECISION

theorem gainReading_mono {sums sums' : ℕ → ℕ → ℕ} (h : ∀ epoch scale, sums epoch scale ≤ sums' epoch scale)
    (d sumSnapshot : ℕ) (t : Snapshots) : gainReading sums d sumSnapshot t ≤ gainReading sums' d sumSnapshot t := by
  unfold gainReading
  gcongr
  · exact h _ _
  · exact h _ _

theorem getDepositorWSTETHGain_reading {w : ℕ} (h : getDepositorWSTETHGain s a = .ok w) :
    w = gainReading s.epochToScaleToSum (s.deposits a) (s.depositSnapshots a).S (s.depositSnapshots a) := by
  unfold getDepositorWSTETHGain at h
  unfold gainReading
  split_ifs at h with hd
  · cases h
    simp [hd]
  · simp only [getWSTETHGainFromSnapshots, gainFromSnapshots, usub_bind, uadd128_bind, udiv_bind, uadd_bind, umul_bind,
      udiv_ok] at h
    obtain ⟨-, -, -, -, -, -, -, rfl⟩ := h
    rfl

theorem getDepositorSHADYGain_reading {g : ℕ} (h : getDepositorSHADYGain s a = .ok g) :
    g = gainReading s.epochToScaleToG (s.deposits a) (s.depositSnapshots a).G (s.depositSnapshots a) :=
  getDepositorWSTETHGain_reading (getDepositorSHADYGain_view h)

/-! ## One call -/

/-- what a call of somebody else does to a deposit -/
structure Undisturbed (s s' : Pool) (a : Address) : Prop where
  deposit : s'.deposits a = s.deposits a
  snapshots : s'.depositSnapshots a = s.depositSnapshots a
  reading_le : reading s' a ≤ reading s a
  sum_le : ∀ epoch scale, s.epochToScaleToSum epoch scale ≤ s'.epochToScaleToSum epoch scale
  G_le : ∀ epoch scale, s.epochToScaleToG epoch scale ≤ s'.epochToScaleToG epoch scale

theorem Undisturbed.refl (s : Pool) (a : Address) : Undisturbed s s a :=
  ⟨rfl, rfl, le_rfl, fun _ _ => le_rfl, fun _ _ => le_rfl⟩

theorem Undisturbed.trans {s'' : Pool} (h : Undisturbed s s' a) (h' : Undisturbed s' s'' a) : Undisturbed s s'' a where
  deposit := h'.deposit.trans h.deposit
  snapshots := h'.snapshots.trans h.snapshots
  reading_le := h'.reading_le.trans h.reading_le
  sum_le epoch scale := (h.sum_le epoch scale).trans (h'.sum_le epoch scale)
  G_le epoch scale := (h.G_le epoch scale).trans (h'.G_le epoch scale)

/-- an issuance raises the SHADY sums -/
theorem triggerSHADYIssuance_mono {s₁ : Pool} {issued : ℕ} (h : triggerSHADYIssuance s issued = .ok s₁)
    (epoch scale : ℕ) : s.epochToScaleToG epoch scale ≤ s₁.epochToScaleToG epoch scale := by
  obtain ⟨perUnit, given, -, hstep⟩ := triggerSHADYIssuance_step h
  rw [hstep.sum]
  exact le_write _ (Nat.le_add_right _ _) epoch scale

theorem DepositorStep.reading_eq {c d w : ℕ} (h : DepositorStep s s' b c d w) (hab : a ≠ b) : reading s' a = reading s a := by
  obtain ⟨hP, hscale, hepoch⟩ := h.product
  simp only [reading, h.deposits, h.snapshots, hP, hscale, hepoch, Function.update_of_ne hab]

theorem exec_undisturbed {call : Call} (hcall : call.sender ≠ some a) (h : exec s call = .ok s') (hs : Wf s) :
    Undisturbed s s' a := by
  cases hsender : call.sender with
  | some b =>
    have hab : a ≠ b := by
      rintro rfl
      exact hcall hsender
    obtain ⟨c, d, w, issued, shady, hstep, hpaid⟩ := exec_depositor hsender h
    obtain ⟨s₁, hissued, -, hG, -⟩ := hpaid.issuance
    refine ⟨?_, ?_, (hstep.reading_eq hab).le, fun epoch scale => ?_, fun epoch scale => ?_⟩
    · rw [hstep.deposits, Function.update_of_ne hab]
    · rw [hstep.snapshots, Function.update_of_ne hab]
    · rw [hstep.sum]
    · rw [hG]
      exact triggerSHADYIssuance_mono hissued epoch scale
  | none =>
    cases call with
    | offset debt coll issued =>
      rcases offset_ok h with ⟨rfl, -⟩ | hstep
      · exact .refl s' a
      · refine ⟨by rw [hstep.deposits], by rw [hstep.snapshots], hstep.reading_le hs a, fun epoch scale => ?_,
          fun epoch scale => ?_⟩
        · rw [hstep.sum]
          exact le_write _ (Nat.le_add_right _ _) epoch scale
        · rcases offset_issues h with rfl | ⟨s₁, hissued, hG, -⟩
          · exact le_rfl
          · rw [hG]
            exact triggerSHADYIssuance_mono hissued epoch scale
    | _ => exact nomatch hsender

theorem exec_wf {call : Call} (h : exec s call = .ok s') (hs : Wf s) : Wf s' := by
  rcases exec_ok h with ⟨-, _, _, _, _, hstep⟩ | ⟨_, _, _, -, ⟨rfl, -⟩ | hstep⟩
  · exact hstep.wf hs
  · exact hs
  · exact hstep.wf hs

/-! ## Whole runs -/

theorem reached_wf (calls : List Call) : Wf (run exec init calls) :=
  run_inv exec (P := fun _ _ => True) (fun _ _ _ hs _ h => exec_wf h hs) init calls init_wf (along_true exec _ _)

theorem run_undisturbed (hs : Wf s) (calls : List Call) (hcalls : ∀ call ∈ calls, call.sender ≠ some a) :
    Undisturbed s (run exec s calls) a := by
  induction calls using List.reverseRecOn with
  | nil => exact .refl s a
  | append_singleton calls call ih =>
    have hbefore := ih fun c hc => hcalls c (List.mem_append_left _ hc)
    have hwf : Wf (run exec s calls) :=
      run_inv exec (P := fun _ _ => True) (fun _ _ _ hs _ h => exec_wf h hs) s calls hs (along_true exec _ _)
    rw [run_snoc]
    cases h : exec (run exec s calls) call with
    | ok s' => exact hbefore.trans (exec_undisturbed (hcalls call (by simp)) h hwf)
    | error e => exact hbefore

/-- without an offset the deposit reads the same, and so does its collateral gain -/
theorem run_unchanged (calls : List Call) (hcalls : ∀ call ∈ calls, ∃ b, b ≠ a ∧ call.sender = some b) :
    reading (run exec s calls) a = reading s a ∧
      (run exec s calls).epochToScaleToSum = s.epochToScaleToSum := by
  induction calls using List.reverseRecOn with
  | nil => exact ⟨rfl, rfl⟩
  | append_singleton calls call ih =>
    obtain ⟨hreading, hsum⟩ := ih fun c hc => hcalls c (List.mem_append_left _ hc)
    rw [run_snoc]
    cases h : exec (run exec s calls) call with
    | ok s' =>
      obtain ⟨b, hba, hsender⟩ := hcalls call (by simp)
      obtain ⟨c, d, w, issued, shady, hstep, -⟩ := exec_depositor hsender h
      exact ⟨(hstep.reading_eq hba.symm).trans hreading, hstep.sum.trans hsum⟩
    | error e => exact ⟨hreading, hsum⟩

/-- what an account sees of its own deposit: the compounded deposit and the two gains -/
def Shows (s : Pool) (a : Address) (deposit wsteth shady : ℕ) : Prop :=
  getCompoundedSIMDeposit s a = .ok deposit ∧ getDepositorWSTETHGain s a = .ok wsteth ∧
    getDepositorSHADYGain s a = .ok shady

instance (s : Pool) (a : Address) (deposit wsteth shady : ℕ) : Decidable (Shows s a deposit wsteth shady) :=
  inferInstanceAs (Decidable (_ ∧ _ ∧ _))

/-- **A deposit left alone.** From any reachable state of the pool, along any calls that the depositor does not make: the
deposit shown does not grow and its gains do not fall; if none of the calls is an offset, the deposit and its collateral
gain are shown as before. -/
theorem left_alone (before calls : List Call) (a : Address) (hcalls : ∀ call ∈ calls, call.sender ≠ some a)
    {deposit wsteth shady deposit' wsteth' shady' : ℕ} (hbefore : Shows (run exec init before) a deposit wsteth shady)
    (hafter : Shows (run exec init (before ++ calls)) a deposit' wsteth' shady') :
    deposit' ≤ deposit ∧ wsteth ≤ wsteth' ∧ shady ≤ shady' ∧
      ((∀ call ∈ calls, call.sender ≠ none) → deposit' = deposit ∧ wsteth' = wsteth) := by
  have hrun : run exec init (before ++ calls) = run exec (run exec init before) calls := List.foldl_append ..
  rw [hrun] at hafter
  obtain ⟨hd, hw, hg⟩ := hbefore
  obtain ⟨hd', hw', hg'⟩ := hafter
  have h := run_undisturbed (reached_wf before) calls hcalls
  rw [getCompoundedSIMDeposit_reading hd, getCompoundedSIMDeposit_reading hd', getDepositorWSTETHGain_reading hw,
    getDepositorWSTETHGain_reading hw', getDepositorSHADYGain_reading hg, getDepositorSHADYGain_reading hg', h.deposit,
    h.snapshots]
  refine ⟨h.reading_le, gainReading_mono h.sum_le _ _ _, gainReading_mono h.G_le _ _ _, fun hnone => ?_⟩
  have hothers : ∀ call ∈ calls, ∃ b, b ≠ a ∧ call.sender = some b := by
    intro call hc
    obtain ⟨b, hb⟩ := Option.ne_none_iff_exists'.1 (hnone call hc)
    refine ⟨b, ?_, hb⟩
    rintro rfl
    exact hcalls call hc hb
  obtain ⟨hreading, hsum⟩ := run_unchanged (s := run exec init before) calls hothers
  exact ⟨hreading, by rw [hsum]⟩

def firstTwo : List Call := [.provideToSP 1 (3 * 10 ^ 18) 0, .provideToSP 2 (10 ^ 18) (10 ^ 18)]

/-- one depositor leaves and another enters between two offsets -/
def othersMove : List Call :=
  [.offset (10 ^ 18) (10 ^ 15) 0, .withdrawFromSP 2 (10 ^ 18) 0 (2 * 10 ^ 18), .provideToSP 3 (5 * 10 ^ 18) (10 ^ 18),
    .offset (10 ^ 18) (10 ^ 15) 0]

theorem left_alone_othersMove :
    Shows (run exec init (firstTwo ++ othersMove)) 1 1939655172413793099 1060344827586205 1999999999999999996 ∧
      1939655172413793099 ≤ 3 * 10 ^ 18 ∧ 0 ≤ 1060344827586205 ∧ 999999999999999999 ≤ 1999999999999999996 := by
  have hafter : Shows (run exec init (firstTwo ++ othersMove)) 1 1939655172413793099 1060344827586205
      1999999999999999996 := by decide +kernel
  have h := left_alone firstTwo othersMove 1 (by decide) (by decide +kernel : Shows _ 1 (3 * 10 ^ 18) 0 999999999999999999)
    hafter
  exact ⟨hafter, h.1, h.2.1, h.2.2.1⟩

end SimContracts.StabilityPool
