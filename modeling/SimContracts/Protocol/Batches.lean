/-
The totals of the four liquidation loops (`_getTotalsFromLiquidateTrovesSequence_*` and `_getTotal*FromBatchLiquidate_*`).

Every loop takes troves one by one (`Sequence`); a trove is left alone or closed, and then what it owed and held is split
among the Stability Pool, the other troves, the caller and the owner. `ClosedSince` keeps the list of troves closed so far.
In recovery mode the loops also keep the totals the system would have if they ended there, for the next test of the mode
(`RunningTotals`); the payments at the end bring the system to exactly these (`Settles`).

Results:
  liquidation_totals   what the totals of a loop add up to, and that the running system totals are the real ones
-/
import SimContracts.Protocol.Modes
import SimContracts.Protocol.Sequences

namespace SimContracts.Protocol

open Solidity TroveManager

variable {c : Config} {env : Env} {s s' : System} {a b sender : Address} {price n amount : ℕ}
  {v v' w : LiquidationSequence} {single : LiquidationValues} {closed : List (Address × EntireTrove)}

/-! ## The troves that were closed -/

/-- `closed` are the troves a sequence has closed since `s`, each with what it owed and held then -/
structure ClosedSince (s : System) (v : LiquidationSequence) (closed : List (Address × EntireTrove)) : Prop where
  nodup : (closed.map Prod.fst).Nodup
  values : ∀ x ∈ closed, getEntireDebtAndColl s x.1 = .ok x.2
  mem : ∀ a, a ∈ closed.map Prod.fst ↔ (trove s a).status = .active ∧ (trove v.s a).status ≠ .active
  debt : v.totals.totalDebtInSequence = (closed.map fun x => x.2.debt).sum
  coll : v.totals.totalCollInSequence = (closed.map fun x => x.2.coll).sum

/-- the state of a sequence: the troves that are left are as they were -/
structure InSequence (s : System) (v : LiquidationSequence) : Prop where
  registry : Registry v.s
  others : ∀ a, (trove v.s a).status = .active → SamePosition s v.s a
  closed : ∃ closed, ClosedSince s v closed

/-- what a liquidated trove leaves -/
theorem TroveManager.Liquidated.closes {SIMInStabPool : ℕ} (h : Liquidated c s s' b single SIMInStabPool) (hreg : Registry s) :
    Registry s' ∧ (trove s b).status = .active ∧
      (∀ a, (trove s' a).status = .active ↔ (trove s a).status = .active ∧ a ≠ b) ∧
      ∀ a, a ≠ b → SamePosition s s' a := by
  obtain ⟨t, s₁, s₂, s₃, -, -, -, hmoved, hstake, hshut, hsurplus⟩ := h.steps
  have hclosed := shut_closed hstake hshut
  have hframe := accountCollSurplus_frame hsurplus
  obtain ⟨htm, hlist⟩ := hmoved.same
  have hsame : ∀ a, trove s₁ a = trove s a := fun a => by simp only [trove, htm]
  have hreg₁ : Registry s₁ := hreg.congr (by rw [htm]) (by rw [htm]) hlist
  have hstatus : ∀ a, (trove s' a).status = (trove s₃ a).status := fun a =>
    (TroveManager.SamePosition.of_frame (a := a) hframe).fields.2.2.2
  refine ⟨(hreg₁.closed hclosed).frame hframe, ?_, fun a => ?_, fun a ha => ?_⟩
  · rw [← hsame]
    exact hreg₁.active_of_closed hclosed
  · rw [hstatus, hclosed.troves.2.2, hsame]
  · exact ((SamePosition.of_eq htm).trans (hclosed.gone.others a ha)).trans (.of_frame hframe)

theorem InSequence.start (h : Registry s) (debt coll : ℕ) : InSequence s (startSequence s debt coll) := by
  refine ⟨h, fun a _ => .refl s a, [], List.nodup_nil, nofun, fun a => ?_, rfl, rfl⟩
  exact ⟨nofun, fun ha => absurd ha.1 ha.2⟩

theorem InSequence.step (h : InSequence s v) (hstep : SequenceStep c b v v' single) : InSequence s v' := by
  obtain ⟨closed, hclosed⟩ := h.closed
  rcases hstep.state with ⟨hs, rfl⟩ | ⟨-, hl⟩
  · refine ⟨hs ▸ h.registry, fun a ha => ?_, closed, hclosed.nodup, hclosed.values, ?_, ?_, ?_⟩
    · rw [hs] at ha ⊢
      exact h.others a ha
    · rw [hs]
      exact hclosed.mem
    · rw [hstep.totals]
      exact hclosed.debt
    · rw [hstep.totals]
      exact hclosed.coll
  obtain ⟨hreg, hactive, hstatus, hothers⟩ := hl.closes h.registry
  obtain ⟨t, -, -, -, ht, hdebt, hcoll, -⟩ := hl.steps
  have hsame := h.others b hactive
  rw [hsame.getEntireDebtAndColl] at ht
  refine ⟨hreg, fun a ha => ?_, (b, t) :: closed, ?_, ?_, fun a => ?_, ?_, ?_⟩
  · obtain ⟨ha, hab⟩ := (hstatus a).1 ha
    exact (h.others a ha).trans (hothers a hab)
  · rw [List.map_cons, List.nodup_cons, hclosed.mem]
    exact ⟨fun hb => hb.2 hactive, hclosed.nodup⟩
  · rintro x (- | ⟨-, hx⟩)
    · exact ht
    · exact hclosed.values x hx
  · rw [List.map_cons, List.mem_cons, hclosed.mem, ne_eq, ne_eq, hstatus]
    have hstart : (trove s b).status = .active := hsame.fields.2.2.2 ▸ hactive
    by_cases hab : a = b
    · simp [hab, hstart]
    · simp [hab]
  · rw [hstep.totals, List.map_cons, List.sum_cons, ← hclosed.debt, ← hdebt]
    exact Nat.add_comm _ _
  · rw [hstep.totals, List.map_cons, List.sum_cons, ← hclosed.coll, ← hcoll]
    exact Nat.add_comm _ _

theorem InSequence.run (h : InSequence s v) (hseq : Sequence c v v') : InSequence s v' := by
  induction hseq with
  | refl => exact h
  | tail _ hstep ih =>
    obtain ⟨user, single, hstep⟩ := hstep
    exact ih.step hstep

/-! ## What the totals add up to -/

/-- one of the four loops ends with `v`: for some number of troves, or some array -/
def Totals (c : Config) (price : ℕ) (s : System) (mode : Bool) (v : LiquidationSequence) : Prop :=
  (∃ n, liquidateTrovesTotals c price s mode n = .ok v) ∨ ∃ troveArray, batchTotals c price s mode troveArray = .ok v

/-- the totals of a sequence that started in `s` -/
structure Conserved (s : System) (t : LiquidationTotals) : Prop where
  debt : t.totalDebtInSequence = t.totalDebtToOffset + t.totalDebtToRedistribute
  coll : t.totalCollInSequence =
    t.totalCollGasCompensation + t.totalCollToSendToSP + t.totalCollToRedistribute + t.totalCollSurplus
  covered : t.totalDebtToOffset ≤ s.stabilityPool.totalSIMDeposits
  /-- nothing is stranded where `offset` returns early -/
  offset : t.totalDebtToOffset = 0 → t.totalCollToSendToSP = 0
  /-- nor where the redistribution does -/
  redistribute : t.totalDebtToRedistribute = 0 → t.totalCollToRedistribute = 0

theorem Totals.sequence {mode : Bool} (h : Totals c price s mode v) : ∃ debt coll, Sequence c (startSequence s debt coll) v := by
  rcases h with ⟨n, h⟩ | ⟨troveArray, h⟩
  · exact liquidateTrovesTotals_ok h
  · exact batchTotals_ok h

/-- the sums of a sequence, and that the Stability Pool is not touched before its end -/
theorem sequence_added {debt coll : ℕ} (h : Sequence c (startSequence s debt coll) v) :
    Added v.totals v.remainingSIMInStabPool v.s.stabilityPool.totalSIMDeposits ∧ v.s.stabilityPool = s.stabilityPool := by
  obtain ⟨hadded, hpool, -⟩ := sequence_posts h (Added.zero s.stabilityPool.totalSIMDeposits) ⟨rfl, rfl, rfl⟩
  have hpool : v.s.stabilityPool = s.stabilityPool := hpool
  rw [hpool]
  exact ⟨hadded, rfl⟩

theorem Totals.conserved {mode : Bool} (h : Totals c price s mode v) : Conserved s v.totals := by
  obtain ⟨debt, coll, hseq⟩ := h.sequence
  obtain ⟨hadded, hpool⟩ := sequence_added hseq
  have hdeposits := hadded.deposits
  rw [hpool] at hdeposits
  exact ⟨hadded.debt.symm, hadded.coll.symm, by omega, hadded.offset, hadded.redistribute⟩

/-! ## The running totals of the system -/

/-- the running totals are those of the system, less what will leave it at the end -/
structure RunningTotals (s : System) (v : LiquidationSequence) : Prop where
  debt : v.entireSystemDebt + v.totals.totalDebtToOffset = systemDebt s
  coll : v.entireSystemColl + v.totals.totalCollToSendToSP + v.totals.totalCollGasCompensation +
    v.totals.totalCollSurplus = systemColl s

/-- the payments for a sequence that ends with `v` leave the system with the running totals -/
def Settles (c : Config) (v : LiquidationSequence) : Prop :=
  ∀ env (sender : Account c) s', finishLiquidation c env sender.address v.s v.totals = .ok s' →
    getEntireSystemDebt s' = .ok v.entireSystemDebt ∧ getEntireSystemColl s' = .ok v.entireSystemColl

theorem RunningTotals.start {debt coll : ℕ} (hdebt : getEntireSystemDebt s = .ok debt) (hcoll : getEntireSystemColl s = .ok coll) :
    RunningTotals s (startSequence s debt coll) := by
  obtain ⟨-, rfl⟩ := uadd_ok.1 hdebt
  obtain ⟨-, rfl⟩ := uadd_ok.1 hcoll
  exact ⟨rfl, rfl⟩

/-- a test of the mode is made on what is left when this trove is gone, too -/
theorem recoveryStep_runningTotals {user : Address} {ICR : ℕ} (h : RunningTotals s v) (hstep : recoveryStep c price user ICR v = .ok v') :
    RunningTotals s v' := by
  obtain ⟨TCR, -, hstep⟩ := bind_ok.1 hstep
  obtain ⟨⟨s₁, single⟩, -, hstep⟩ := bind_ok.1 hstep
  simp only [usub_bind] at hstep
  obtain ⟨-, hdebt, hsp, hgas, hsurplus, hstep⟩ := hstep
  obtain ⟨totals, htotals, hstep⟩ := bind_ok.1 hstep
  obtain ⟨inRecovery, -, hstep⟩ := bind_ok.1 hstep
  cases hstep
  rw [addLiquidationValuesToTotals_ok htotals]
  obtain ⟨h1, h2⟩ := h
  refine ⟨?_, ?_⟩ <;> dsimp only [LiquidationTotals.add]
  · omega
  · omega

theorem sendWSTETH_leaves {caller account : Address} (hne : account ≠ c.defaultPool)
    (h : ActivePool.sendWSTETH c caller s account amount = .ok s') :
    systemDebt s' = systemDebt s ∧ systemColl s' + amount = systemColl s := by
  obtain ⟨hcoll, hdebt⟩ := sendWSTETH_totals hne h
  have hle := (ActivePool.sendWSTETH_ok h).1
  refine ⟨hdebt, ?_⟩
  rw [hcoll]
  unfold systemColl
  omega

theorem offset_leaves {debt coll : ℕ} (h : StabilityPool.offset c env c.troveManager s debt coll = .ok s')
    (hle : debt ≤ s.stabilityPool.totalSIMDeposits) (hzero : debt = 0 → coll = 0) :
    systemDebt s' + debt = systemDebt s ∧ systemColl s' + coll = systemColl s := by
  rcases offset_steps h with ⟨hskip, rfl⟩ | ⟨-, hdebt, issued, pool, t, -, -, hsent⟩
  · have hd : debt = 0 := by omega
    rw [hzero hd, hd]
    exact ⟨rfl, rfl⟩
  · obtain ⟨hd, hc⟩ := sendWSTETH_leaves (Ne.symm c.ne.2.2.2.1) hsent
    simp only [systemDebt, systemColl] at hd hc ⊢
    omega

theorem redistributeDebtAndColl_totals {debt coll : ℕ} (h : redistributeDebtAndColl c s debt coll = .ok s') :
    SameTotals s s' := by
  rcases redistributeDebtAndColl_ok h with ⟨-, rfl⟩ | ⟨-, hred⟩
  · exact ⟨rfl, rfl⟩
  · have hdebt := hred.debt_le
    have hcoll := hred.coll_le
    obtain ⟨rw, ew, rd, ed, u, -, -, -, rfl⟩ := hred.state
    refine ⟨?_, ?_⟩
    · simp only [systemColl]
      omega
    · simp only [systemDebt]
      omega

theorem sendCollSurplus_leaves (h : sendCollSurplus c s amount = .ok s') :
    systemDebt s' = systemDebt s ∧ systemColl s' + amount = systemColl s := by
  unfold sendCollSurplus at h
  split_ifs at h with hpos
  · exact sendWSTETH_leaves (Ne.symm c.ne.2.2.2.2.1) h
  · cases h
    exact ⟨rfl, by omega⟩

theorem sendGasCompensation_leaves (hne : sender ≠ c.defaultPool) (h : sendGasCompensation c s sender amount = .ok s') :
    systemDebt s' = systemDebt s ∧ systemColl s' + amount = systemColl s := by
  unfold sendGasCompensation at h
  split_ifs at h with hpos
  · exact sendWSTETH_leaves hne h
  · cases h
    exact ⟨rfl, by omega⟩

/-- what leaves the system at the end of a liquidation -/
theorem finishLiquidation_leaves {t : LiquidationTotals} {remaining : ℕ} (hne : sender ≠ c.defaultPool)
    (ht : Added t remaining s.stabilityPool.totalSIMDeposits) (h : finishLiquidation c env sender s t = .ok s') :
    systemDebt s' + t.totalDebtToOffset = systemDebt s ∧
      systemColl s' + t.totalCollToSendToSP + t.totalCollGasCompensation + t.totalCollSurplus = systemColl s := by
  obtain ⟨s₁, s₂, s₃, s₄, hs⟩ := finishLiquidation_ok h
  have hoffset := offset_leaves hs.offset (by have := ht.deposits; omega) ht.offset
  have hred := redistributeDebtAndColl_totals hs.redistributed
  have hsurplus := sendCollSurplus_leaves hs.surplus
  have hsnapshot : SameTotals s₃ s₄ := by
    obtain ⟨-, hs₄⟩ := updateSystemSnapshots_ok hs.snapshot
    exact .of_eq (by rw [hs₄]) (by rw [hs₄])
  have hgas := sendGasCompensation_leaves hne hs.compensation
  have hdebt₂ := hred.debt
  have hcoll₂ := hred.coll
  have hdebt₄ := hsnapshot.debt
  have hcoll₄ := hsnapshot.coll
  omega

theorem accountCollSurplus_totals (h : accountCollSurplus c s b amount = .ok s') : SameTotals s s' := by
  unfold accountCollSurplus at h
  split_ifs at h with hpos
  · rw [CollSurplusPool.accountSurplus_ok h]
    exact ⟨rfl, rfl⟩
  · cases h
    exact ⟨rfl, rfl⟩

/-- the troves are closed with the totals of the system as they are -/
theorem sequence_totals (h : Sequence c v v') : SameTotals v.s v'.s := by
  induction h with
  | refl => exact ⟨rfl, rfl⟩
  | tail _ hstep ih =>
    obtain ⟨user, single, hstep⟩ := hstep
    rcases hstep.state with ⟨hs, -⟩ | ⟨-, hl⟩
    · rw [hs]
      exact ih
    · obtain ⟨t, s₁, s₂, s₃, -, -, -, hmoved, hstake, hshut, hsurplus⟩ := hl.steps
      have hclosed : SameTotals s₁ s₃ := by
        rw [(shut_closed hstake hshut).rest]
        exact ⟨rfl, rfl⟩
      have hrecorded : SameTotals s₃ _ := accountCollSurplus_totals hsurplus
      exact ((ih.trans hmoved.totals).trans hclosed).trans hrecorded

/-- a sequence with the right running totals ends in a system with these totals -/
theorem RunningTotals.settles {debt coll : ℕ} (h : RunningTotals s v) (hdebt : getEntireSystemDebt s = .ok debt)
    (hcoll : getEntireSystemColl s = .ok coll) (hseq : Sequence c (startSequence s debt coll) v) : Settles c v := by
  intro env sender s' hfinish
  have hsame : SameTotals s v.s := sequence_totals hseq
  obtain ⟨hadded, -⟩ := sequence_added hseq
  have hne : sender.address ≠ c.defaultPool := fun e => sender.notMem_pools (by simp [Config.pools, e])
  obtain ⟨hd, hc⟩ := finishLiquidation_leaves hne hadded hfinish
  obtain ⟨hd', hc'⟩ := h
  have hdlt := (uadd_ok.1 hdebt).1
  have hclt := (uadd_ok.1 hcoll).1
  have hsd := hsame.debt
  have hsc := hsame.coll
  simp only [systemDebt, systemColl] at *
  exact ⟨uadd_ok.2 ⟨by omega, by omega⟩, uadd_ok.2 ⟨by omega, by omega⟩⟩

/-! ## Loop by loop -/

/-- while a sequence is in recovery mode, its running totals are right -/
def RunningInRecovery (s : System) (v : LiquidationSequence) : Prop := v.backToNormalMode = false → RunningTotals s v

theorem normalStep_running {user : Address} (hnormal : ¬ v.backToNormalMode = false) (hstep : normalStep c user v = .ok v') :
    RunningInRecovery s v' := by
  obtain ⟨⟨s₁, single⟩, -, hstep⟩ := bind_ok.1 hstep
  simp only [usub_bind] at hstep
  obtain ⟨-, hstep⟩ := hstep
  obtain ⟨totals, -, hstep⟩ := bind_ok.1 hstep
  cases hstep
  exact fun h => absurd h hnormal

theorem liquidateTrovesRecoveryLoop_running {user firstUser : Address} (hv : RunningInRecovery s v)
    (h : liquidateTrovesRecoveryLoop c price firstUser n user v = .ok v') : RunningInRecovery s v' := by
  induction n generalizing user v with
  | zero =>
    cases h
    exact hv
  | succ n ih =>
    unfold liquidateTrovesRecoveryLoop at h
    by_cases hfirst : user = firstUser
    · rw [if_pos hfirst] at h
      cases h
      exact hv
    rw [if_neg hfirst] at h
    obtain ⟨ICR, -, h⟩ := bind_ok.1 h
    split_ifs at h with hmode
    · cases h
      exact hv
    · obtain ⟨v₁, h1, h⟩ := bind_ok.1 h
      exact ih (fun _ => recoveryStep_runningTotals (hv hmode) h1) h
    · obtain ⟨v₁, h1, h⟩ := bind_ok.1 h
      exact ih (normalStep_running hmode h1) h
    · cases h
      exact hv

/-- the next trove, after `n` that left the sequence in recovery mode -/
theorem liquidateTrovesRecoveryLoop_next {user firstUser : Address} (hv : RunningInRecovery s v)
    (h : liquidateTrovesRecoveryLoop c price firstUser n user v = .ok w) (hmode : w.backToNormalMode = false)
    (h' : liquidateTrovesRecoveryLoop c price firstUser (n + 1) user v = .ok v') : RunningTotals s v' := by
  induction n generalizing user v with
  | zero =>
    cases h
    unfold liquidateTrovesRecoveryLoop at h'
    by_cases hfirst : user = firstUser
    · rw [if_pos hfirst] at h'
      cases h'
      exact hv hmode
    rw [if_neg hfirst] at h'
    obtain ⟨ICR, -, h'⟩ := bind_ok.1 h'
    rw [if_pos hmode] at h'
    split_ifs at h' with hstop
    · cases h'
      exact hv hmode
    · obtain ⟨v₁, h1, h'⟩ := bind_ok.1 h'
      cases h'
      exact recoveryStep_runningTotals (hv hmode) h1
  | succ n ih =>
    unfold liquidateTrovesRecoveryLoop at h h'
    by_cases hfirst : user = firstUser
    · rw [if_pos hfirst] at h h'
      cases h
      cases h'
      exact hv hmode
    rw [if_neg hfirst] at h h'
    obtain ⟨ICR, hICR, h⟩ := bind_ok.1 h
    rw [hICR, ok_bind] at h'
    split_ifs at h h' with hm hstop hlow
    · cases h
      cases h'
      exact hv hmode
    · obtain ⟨v₁, h1, h⟩ := bind_ok.1 h
      rw [h1, ok_bind] at h'
      exact ih (fun _ => recoveryStep_runningTotals (hv hm) h1) h h'
    · obtain ⟨v₁, h1, h⟩ := bind_ok.1 h
      rw [h1, ok_bind] at h'
      exact ih (normalStep_running hm h1) h h'
    · cases h
      exact absurd hmode hm

theorem batchRecoveryLoop_running {users : List Address} (hv : RunningInRecovery s v)
    (h : batchRecoveryLoop c price users v = .ok v') : RunningInRecovery s v' := by
  induction users generalizing v with
  | nil =>
    cases h
    exact hv
  | cons user users ih =>
    unfold batchRecoveryLoop at h
    by_cases hactive : (trove v.s user).status ≠ .active
    · rw [if_pos hactive] at h
      exact ih hv h
    rw [if_neg hactive] at h
    obtain ⟨ICR, -, h⟩ := bind_ok.1 h
    split_ifs at h with hmode
    · exact ih hv h
    · obtain ⟨v₁, h1, h⟩ := bind_ok.1 h
      exact ih (fun _ => recoveryStep_runningTotals (hv hmode) h1) h
    · obtain ⟨v₁, h1, h⟩ := bind_ok.1 h
      exact ih (normalStep_running hmode h1) h
    · exact ih hv h

theorem batchRecoveryLoop_append (xs ys : List Address) (v : LiquidationSequence) :
    batchRecoveryLoop c price (xs ++ ys) v = batchRecoveryLoop c price xs v >>= batchRecoveryLoop c price ys := by
  induction xs generalizing v with
  | nil => rfl
  | cons user xs ih =>
    rw [List.cons_append, batchRecoveryLoop, batchRecoveryLoop]
    by_cases hactive : (trove v.s user).status ≠ .active
    · rw [if_pos hactive, if_pos hactive]
      exact ih v
    rw [if_neg hactive, if_neg hactive, bind_assoc]
    refine bind_congr_of_ok fun ICR _ => ?_
    split_ifs with hmode hstop hlow
    · exact ih v
    · rw [bind_assoc]
      exact bind_congr_of_ok fun v₁ _ => ih v₁
    · rw [bind_assoc]
      exact bind_congr_of_ok fun v₁ _ => ih v₁
    · exact ih v

/-- the next trove of an array, after those that left the sequence in recovery mode -/
theorem batchRecoveryLoop_next {user : Address} (hv : RunningTotals s v) (hmode : v.backToNormalMode = false)
    (h : batchRecoveryLoop c price [user] v = .ok v') : RunningTotals s v' := by
  unfold batchRecoveryLoop at h
  by_cases hactive : (trove v.s user).status ≠ .active
  · rw [if_pos hactive] at h
    cases h
    exact hv
  rw [if_neg hactive] at h
  obtain ⟨ICR, -, h⟩ := bind_ok.1 h
  rw [if_pos hmode] at h
  split_ifs at h with hstop
  · cases h
    exact hv
  · obtain ⟨v₁, h1, h⟩ := bind_ok.1 h
    cases h
    exact recoveryStep_runningTotals hv h1

/-- a loop in recovery mode ends with `v`, and with `v'` if it goes on to one more trove -/
def NextTotals (c : Config) (price : ℕ) (s : System) (v v' : LiquidationSequence) : Prop :=
  (∃ n, liquidateTrovesTotals c price s true n = .ok v ∧ liquidateTrovesTotals c price s true (n + 1) = .ok v') ∨
    ∃ troveArray user, batchTotals c price s true troveArray = .ok v ∧
      batchTotals c price s true (troveArray ++ [user]) = .ok v'

theorem NextTotals.running (h : NextTotals c price s v v') (hmode : v.backToNormalMode = false) :
    ∃ debt coll, getEntireSystemDebt s = .ok debt ∧ getEntireSystemColl s = .ok coll ∧
      (RunningTotals s v ∧ Sequence c (startSequence s debt coll) v) ∧
      RunningTotals s v' ∧ Sequence c (startSequence s debt coll) v' := by
  rcases h with ⟨n, h, h'⟩ | ⟨troveArray, user, h, h'⟩
  · rw [liquidateTrovesTotals, if_pos rfl] at h h'
    obtain ⟨debt, hdebt, h⟩ := bind_ok.1 h
    obtain ⟨coll, hcoll, h⟩ := bind_ok.1 h
    rw [hdebt, ok_bind, hcoll, ok_bind] at h'
    have hstart : RunningInRecovery s (startSequence s debt coll) := fun _ => .start hdebt hcoll
    exact ⟨debt, coll, hdebt, hcoll,
      ⟨liquidateTrovesRecoveryLoop_running hstart h hmode, liquidateTrovesRecoveryLoop_ok h⟩,
      liquidateTrovesRecoveryLoop_next hstart h hmode h', liquidateTrovesRecoveryLoop_ok h'⟩
  · rw [batchTotals, if_pos rfl] at h h'
    obtain ⟨debt, hdebt, h⟩ := bind_ok.1 h
    obtain ⟨coll, hcoll, h⟩ := bind_ok.1 h
    rw [hdebt, ok_bind, hcoll, ok_bind] at h'
    have hsequence := batchRecoveryLoop_ok h'
    rw [batchRecoveryLoop_append, h, ok_bind] at h'
    have hrunning : RunningTotals s v := batchRecoveryLoop_running (fun _ => .start hdebt hcoll) h hmode
    exact ⟨debt, coll, hdebt, hcoll, ⟨hrunning, batchRecoveryLoop_ok h⟩, batchRecoveryLoop_next hrunning hmode h', hsequence⟩

/-- Liquidations conserve value: the totals of each of the four loops, for every number of troves and every array, split the
debt and the collateral of exactly the troves that were closed, and a part without debt has no collateral. In recovery
mode the totals that the mode is tested on are those the system has when the sequence ends there. -/
theorem liquidation_totals (c : Config) (calls : List (Tx c)) (price : ℕ) :
    let s := reached c calls
    (∀ mode v, Totals c price s mode v → Conserved s v.totals ∧ ∃ closed, ClosedSince s v closed) ∧
      ∀ v v', NextTotals c price s v v' → v.backToNormalMode = false →
        (RunningTotals s v ∧ Settles c v) ∧ RunningTotals s v' ∧ Settles c v' := by
  intro s
  refine ⟨fun mode v h => ?_, fun v v' h hmode => ?_⟩
  · obtain ⟨debt, coll, hseq⟩ := h.sequence
    have hstart : InSequence s (startSequence s debt coll) := .start (reached_registry calls) debt coll
    exact ⟨h.conserved, (hstart.run hseq).closed⟩
  · obtain ⟨debt, coll, hdebt, hcoll, ⟨hv, hseq⟩, hv', hseq'⟩ := h.running hmode
    exact ⟨⟨hv, hv.settles hdebt hcoll hseq⟩, hv', hv'.settles hdebt hcoll hseq'⟩

/-- in recovery mode, nothing and then Alice's trove -/
theorem liquidation_totals_alice :
    let s := reached exampleConfig twoTroves
    ∃ v v', batchTotals exampleConfig (1000 * 10 ^ 18) s true [] = .ok v ∧
      batchTotals exampleConfig (1000 * 10 ^ 18) s true [1] = .ok v' ∧ v.backToNormalMode = false ∧
      (Conserved s v'.totals ∧ ∃ closed, ClosedSince s v' closed) ∧ Settles exampleConfig v' := by
  intro s
  obtain ⟨v', hv'⟩ : ∃ v', batchTotals exampleConfig (1000 * 10 ^ 18) s true [1] = .ok v' :=
    Res.failure_none (by decide +kernel)
  obtain ⟨v, hv⟩ : ∃ v, batchTotals exampleConfig (1000 * 10 ^ 18) s true [] = .ok v := Res.failure_none (by decide +kernel)
  obtain ⟨htotals, hrunning⟩ := liquidation_totals exampleConfig twoTroves (1000 * 10 ^ 18)
  have hmode : v.backToNormalMode = false := by
    rw [batchTotals, if_pos rfl] at hv
    obtain ⟨debt, -, hv⟩ := bind_ok.1 hv
    obtain ⟨coll, -, hv⟩ := bind_ok.1 hv
    cases hv
    rfl
  exact ⟨v, v', hv, hv', hmode, htotals true v' (.inr ⟨[1], hv'⟩), (hrunning v v' (.inr ⟨[], 1, hv, hv'⟩) hmode).2.2⟩

end SimContracts.Protocol
