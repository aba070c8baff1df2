/-
A call as a sequence of checkpoints. Whatever else a call does, it changes the histories of points and the schedule of
slopes only by `_checkpoint`, run for the NFTs it names and for ends at most 16 weeks away. So what a checkpoint keeps
of the histories, every call keeps (`Passes.keeps`), without going through the calls again.

Results:
  exec_passes          every call is such a sequence
  exec_points          only the NFTs named by a call get new points
-/
import SimContracts.Ve.Runs

namespace SimContracts.Ve

open Solidity

variable {cfg : Config} {s s' s₁ s₂ : State} {env : Env} {I : ℕ → Prop}

/-! ## Checkpoints in a row -/

/-- same points and schedule -/
structure SamePoints (s s' : State) : Prop where
  epoch : s'.epoch = s.epoch
  pointHistory : s'.pointHistory = s.pointHistory
  userPointEpoch : s'.userPointEpoch = s.userPointEpoch
  userPointHistory : s'.userPointHistory = s.userPointHistory
  slopeChanges : s'.slopeChanges = s.slopeChanges

/-- nothing happens to the points, or a checkpoint of nothing or of one of the NFTs, with an end in range -/
def Pass (env : Env) (I : ℕ → Prop) (s s' : State) : Prop :=
  SamePoints s s' ∨ ∃ info : CheckpointInfo, (info.tokenId = 0 ∨ I info.tokenId) ∧
    info.newEnd ≤ env.timestamp + MAX_TIME ∧ checkpointWith s env info = .ok s'

def Passes (env : Env) (I : ℕ → Prop) : State → State → Prop := Relation.ReflTransGen (Pass env I)

/-- what one pass keeps, a sequence of them keeps -/
theorem Passes.keeps {J : State → Prop} (hstep : ∀ s s', Pass env I s s' → J s → J s') (h : Passes env I s s')
    (hJ : J s) : J s' := by
  induction h with
  | refl => exact hJ
  | tail _ hlast ih => exact hstep _ _ hlast ih

theorem Passes.refl : Passes env I s s := Relation.ReflTransGen.refl

theorem Passes.trans (h : Passes env I s s₁) (h' : Passes env I s₁ s₂) : Passes env I s s₂ :=
  Relation.ReflTransGen.trans h h'

theorem SamePoints.passes (h : SamePoints s s') : Passes env I s s' := .single (.inl h)

theorem SameHistory.points (h : SameHistory s s') : SamePoints s s' :=
  ⟨h.epoch, h.pointHistory, h.userPointEpoch, h.userPointHistory, h.slopeChanges⟩

/-- the locks and ids are no part of the points -/
theorem samePoints_locks {token : ℕ} {amounts : ℕ → Address → ℕ} {derived ends : ℕ → ℕ} :
    SamePoints s { s with
      tokenId := token, lockedAmounts := amounts, lockedDerivedAmount := derived, lockedEnd := ends } :=
  ⟨rfl, rfl, rfl, rfl, rfl⟩

theorem checkpointWith_passes {info : CheckpointInfo} (hid : info.tokenId = 0 ∨ I info.tokenId)
    (hend : info.newEnd ≤ env.timestamp + MAX_TIME) (h : checkpointWith s env info = .ok s') : Passes env I s s' :=
  .single (.inr ⟨info, hid, hend, h⟩)

/-! ## The operations on locks -/

theorem depositFor_passes {info : DepositInfo} (hid : I info.tokenId)
    (hend : (if info.unlockTime ≠ 0 then info.unlockTime else info.lockedEnd) ≤ env.timestamp + MAX_TIME)
    (h : depositFor cfg s env info = .ok s') : Passes env I s s' := by
  obtain ⟨derived, s₁, hs⟩ := depositFor_steps h
  have hwritten : SamePoints s (written s info derived) := ⟨rfl, rfl, rfl, rfl, rfl⟩
  have hframe := (depositTokens_rebalanced hs.pulled).frame
  exact (hwritten.passes.trans (checkpointWith_passes (.inr hid) hend hs.checked)).trans hframe.history.points.passes

theorem mergeTokens_passes {src dst lockEnd : ℕ} (hid : I dst) (hpos : lockEnd ≠ 0)
    (hend : lockEnd ≤ env.timestamp + MAX_TIME) (tokens : List Address) {e : ℕ}
    (h : mergeTokens cfg env src dst lockEnd tokens s e = .ok s') : Passes env I s s' := by
  refine mergeTokens_rel (fun _ => .refl) .trans (fun hround => ?_) tokens h
  refine samePoints_locks.passes.trans (depositFor_passes hid ?_ hround.deposited)
  rw [if_pos hpos]
  exact hend

theorem splitTokens_passes {id newId percent lockEnd : ℕ} (hid : I newId) (hpos : lockEnd ≠ 0)
    (hend : lockEnd ≤ env.timestamp + MAX_TIME) (tokens : List Address) {d d' : ℕ}
    (h : splitTokens cfg env id newId percent lockEnd tokens s d = .ok (s', d')) : Passes env I s s' := by
  refine splitTokens_rel (R := fun a b => Passes env I a.1 b.1) (fun _ => .refl) .trans (fun hround => ?_) tokens h
  refine samePoints_locks.passes.trans (depositFor_passes hid ?_ hround.deposited)
  rw [if_pos hpos]
  exact hend

theorem createLockFor_passes {token dst : Address} {value d id : ℕ} {received : Res Bool} (hid : I (s.tokenId + 1))
    (h : createLockFor cfg s env token value d dst received = .ok (s', id)) : Passes env I s s' := by
  obtain ⟨unlockTime, s₁, hc⟩ := createLockFor_ok h
  refine (samePoints_locks.passes.trans (mint_reowned hc.minted).frame.history.points.passes).trans
    (depositFor_passes hid ?_ hc.deposited)
  rw [if_pos (by have := hc.later; dsimp only; omega)]
  exact hc.near

theorem withdraw_passes {token : Address} {id : ℕ} (hid : I id) (h : withdraw cfg s env token id = .ok s') :
    Passes env I s s' := by
  obtain ⟨derived, s₁, s₂, hw⟩ := withdraw_ok h
  have hexpired := hw.expired
  have hafter := (burnIfEmpty_reowned hw.burned).frame.trans (transferUnderlyingToken_rebalanced hw.paid).frame
  have hchecked := checkpointWith_passes (I := I) (.inr hid) ?near hw.checked
  · exact (samePoints_locks.passes.trans hchecked).trans hafter.history.points.passes
  · exact ((keptEnd_le derived _).trans hexpired).trans (Nat.le_add_right _ _)

theorem withdrawTokens_passes {id : ℕ} (hid : I id) (tokens : List Address)
    (h : withdrawTokens cfg env id tokens s = .ok s') : Passes env I s s' :=
  withdrawTokens_rel (fun _ => .refl) .trans (withdraw_passes hid) tokens h

/-! ## Every call -/

/-- the NFTs whose lock a call changes -/
def Call.changes (s : State) : Call → ℕ → Prop
  | .createLockFor .. | .createLock .. => fun i => i = s.tokenId + 1
  | .increaseAmount _ id _ | .increaseUnlockTime id _ | .withdraw _ id | .withdrawAll id => fun i => i = id
  | .merge src dst => fun i => i = src ∨ i = dst
  | .split id _ _ => fun i => i = id ∨ i = s.tokenId + 1
  | _ => fun _ => False

/-- **Every call is a sequence of checkpoints** of the NFTs it names. -/
theorem exec_passes {call : Call} (hnear : ∀ i, s.lockedEnd i ≤ env.timestamp + MAX_TIME)
    (h : exec cfg s env call = .ok s') : Passes env (call.changes s) s s' := by
  cases call with
  | createLockFor token value d dst received =>
    obtain ⟨⟨_, id⟩, h1, ⟨⟩⟩ := bind_ok.1 h
    exact createLockFor_passes rfl h1
  | createLock token value d received =>
    obtain ⟨⟨_, id⟩, h1, ⟨⟩⟩ := bind_ok.1 h
    exact createLockFor_passes rfl h1
  | increaseAmount token id value =>
    refine depositFor_passes ?_ ?_ (increaseAmount_ok h).deposited
    · exact Eq.refl id
    · rw [if_neg (by simp)]
      exact hnear id
  | increaseUnlockTime id d =>
    obtain ⟨⟨_, power, date⟩, h1, ⟨⟩⟩ := bind_ok.1 h
    obtain ⟨unlockTime, hs⟩ := increaseUnlockTime_ok h1
    refine depositFor_passes ?_ ?_ hs.deposited
    · exact Eq.refl id
    · rw [if_pos (by have := hs.later; dsimp only; omega)]
      exact hs.near
  | merge src dst =>
    obtain ⟨s₁, s₂, hm⟩ := merge_ok h
    have hlive := hm.src_live
    have hmoved := mergeTokens_passes (I := (Call.merge src dst).changes s) (.inr rfl) (by omega)
      (max_le (hnear src) (hnear dst)) _ hm.moved
    have hcleared := checkpointWith_passes (I := (Call.merge src dst).changes s) (.inr (.inl rfl)) (hnear src) hm.cleared
    have hburned := (burn_reowned hm.burned).frame.history.points
    exact (hmoved.trans (samePoints_locks.passes.trans hcleared)).trans hburned.passes
  | split id percent received =>
    obtain ⟨s₁, s₂, derived, hsp⟩ := split_ok h
    have hlive := hsp.live
    have hminted : Passes env ((Call.split id percent received).changes s) s s₁ :=
      samePoints_locks.passes.trans (mint_reowned hsp.minted).frame.history.points.passes
    have hmoved := splitTokens_passes (I := (Call.split id percent received).changes s) (.inr rfl) (by omega) (hnear id)
      _ hsp.moved
    have hchecked := checkpointWith_passes (I := (Call.split id percent received).changes s) (.inr (.inl rfl)) (hnear id)
      hsp.checked
    exact (hminted.trans hmoved).trans (samePoints_locks.passes.trans hchecked)
  | withdraw token id => exact withdraw_passes rfl h
  | withdrawAll id => exact withdrawTokens_passes rfl _ h
  | checkpoint =>
    have hc : checkpointWith s env ⟨0, 0, 0, 0, 0⟩ = .ok s' := h
    exact checkpointWith_passes (.inl rfl) (Nat.zero_le _) hc
  | _ => exact (exec_frame rfl h).history.points.passes

/-- a call without a checkpoint leaves the points alone -/
theorem exec_samePoints {call : Call} (hc : call.checkpoints = false) (h : exec cfg s env call = .ok s') :
    SamePoints s s' := (exec_frame hc h).history.points

/-- only the NFTs whose lock a call changes get new points -/
theorem exec_points {call : Call} (hnear : ∀ i, s.lockedEnd i ≤ env.timestamp + MAX_TIME)
    (h : exec cfg s env call = .ok s') {i : ℕ} (hi : ¬ call.changes s i) : s'.userPointEpoch i = s.userPointEpoch i := by
  refine Passes.keeps (J := fun s₁ => s₁.userPointEpoch i = s.userPointEpoch i) ?_ (exec_passes hnear h) rfl
  rintro s₁ s₂ (hsame | ⟨info, hid, -, hc⟩) hJ
  · rw [hsame.userPointEpoch]
    exact hJ
  · unfold checkpointWith at hc
    split_ifs at hc with h0
    · obtain ⟨f, -, hc⟩ := bind_ok.1 hc
      cases hc
      exact hJ
    · obtain ⟨_, _, _, _, _, _, -, -, -, -, -, -, rfl⟩ := checkpointLock_ok hc
      have hne : i ≠ info.tokenId := by
        rintro rfl
        exact hi (hid.resolve_left h0)
      exact (Function.update_of_ne hne _ _).trans hJ

/-- whether a call wraps is decided by the NFTs up to `n`, if it changes no later one -/
theorem commit_noWrap {c : Env × Call} (n : ℕ) (hg : Good s) (hw : NoWrap s) (hordered : (lastPoint s).ts ≤ c.1.timestamp)
    (hn : s.tokenId ≤ n) (hquiet : ∀ i, n < i → ¬ c.2.changes s i)
    (hused : let s' := commit s (execIn cfg s c)
      ∀ i, i ≤ n → ∀ k, k ≤ s'.userPointEpoch i → 0 ≤ (s'.userPointHistory i k).slope) :
    NoWrap (commit s (execIn cfg s c)) := by
  cases h : execIn cfg s c with
  | error e => exact hw
  | ok s' =>
    rw [h] at hused
    intro i k hk
    rcases Nat.lt_or_ge n i with hlate | hle
    · -- an NFT that is not in use has the zero point only
      have hnear : ∀ i, s.lockedEnd i ≤ c.1.timestamp + MAX_TIME :=
        fun i => (hg.supply.ends_le i).trans (Nat.add_le_add_right hordered _)
      have hempty : s.userPointEpoch i = 0 := (hg.supply.unused i (.inr (by omega))).2
      obtain rfl : k = 0 := by
        rw [commit, exec_points hnear h (hquiet i hlate), hempty] at hk
        exact Nat.le_zero.1 hk
      show 0 ≤ (s'.userPointHistory i 0).slope
      rw [(exec_extends h).1.userPoints i 0 (Nat.zero_le _), hg.history.first]
    · exact hused i hle k hk

end SimContracts.Ve
