/-
What stops a redemption. It finds the first trove to redeem from, closes one trove after another, puts the last one back into
the list at its new ratio, and pays a fee. In a reachable state the searches end, the list takes the trove back, and no token
transfer fails: what is left are the documented refusals, the price feed and the distributor, which are outside, and arithmetic
panics. Two assertions can fail: that the base rate is not zero, but only after the old rate has decayed to zero, and that there
were stakes after the last liquidation, but only if they have been rounded to zero.

The list asks the protocol for the ratio of every node it passes, and such a call may revert. Its searches are therefore compared
with those for a list whose ratios are all known (`AgreesUpTo`), which are known to end.

Results:
  list_has_room         the list is never larger than its maximum size
  redemption_failures   what a redemption can fail for
-/
import SimContracts.Protocol.BaseRate
import SimContracts.Protocol.Failures
import SimContracts.Protocol.Redeeming

namespace SimContracts.SortedTroves

open Solidity

variable {d d' : Data} {ids : List Address} {nicr : Address → Res ℕ} {NICR : ℕ} {id prevId nextId : Address} {R : Revert → Prop}

/-! ## Searches with ratios that may not be known -/

/-- the ratios, with any number in place of one that is not known -/
def known (nicr : Address → Res ℕ) : Address → Res ℕ := fun a => .ok (nicr a).shown

theorem agrees_known (h : ∀ a, FailsFor R (nicr a)) (a : Address) : AgreesUpTo R (nicr a) (known nicr a) := by
  unfold known
  cases hr : nicr a with
  | ok r => exact .inl rfl
  | error e => exact .inr ⟨e, rfl, h a e hr⟩

section Searches

variable (h : ∀ a, FailsFor R (nicr a))

include h

theorem validInsertPosition_agrees (d : Data) (NICR : ℕ) (prevId nextId : Address) :
    AgreesUpTo R (validInsertPosition d nicr NICR prevId nextId) (validInsertPosition d (known nicr) NICR prevId nextId) := by
  unfold validInsertPosition
  split_ifs
  · exact .refl _
  · exact (agrees_known h _).bind fun _ _ => .refl _
  · exact .refl _
  · exact (agrees_known h _).bind fun _ _ => .refl _
  · exact .refl _
  · refine (agrees_known h _).bind fun r _ => ?_
    split_ifs
    · exact (agrees_known h _).bind fun _ _ => .refl _
    · exact .refl _
  · exact .refl _

theorem descendLoop_agrees (d : Data) (NICR rounds : ℕ) (prevId nextId : Address) :
    AgreesUpTo R (descendLoop d nicr NICR rounds prevId nextId) (descendLoop d (known nicr) NICR rounds prevId nextId) := by
  induction rounds generalizing prevId nextId with
  | zero => exact .refl _
  | succ rounds ih =>
    unfold descendLoop
    by_cases h0 : prevId = 0
    · rw [if_pos h0, if_pos h0]
      exact .refl _
    rw [if_neg h0, if_neg h0]
    refine (validInsertPosition_agrees h _ _ _ _).bind fun valid _ => ?_
    cases valid with
    | true => exact .refl _
    | false => exact ih _ _

theorem ascendLoop_agrees (d : Data) (NICR rounds : ℕ) (prevId nextId : Address) :
    AgreesUpTo R (ascendLoop d nicr NICR rounds prevId nextId) (ascendLoop d (known nicr) NICR rounds prevId nextId) := by
  induction rounds generalizing prevId nextId with
  | zero => exact .refl _
  | succ rounds ih =>
    unfold ascendLoop
    by_cases h0 : nextId = 0
    · rw [if_pos h0, if_pos h0]
      exact .refl _
    rw [if_neg h0, if_neg h0]
    refine (validInsertPosition_agrees h _ _ _ _).bind fun valid _ => ?_
    cases valid with
    | true => exact .refl _
    | false => exact ih _ _

theorem descendList_agrees (d : Data) (NICR : ℕ) (startId : Address) :
    AgreesUpTo R (descendList d nicr NICR startId) (descendList d (known nicr) NICR startId) := by
  refine AgreesUpTo.bind ?_ fun first _ => ?_
  · unfold fitsBeforeHead
    split_ifs
    · exact (agrees_known h _).bind fun _ _ => .refl _
    · exact .refl _
  · cases first with
    | true => exact .refl _
    | false => exact descendLoop_agrees h _ _ _ _ _

theorem ascendList_agrees (d : Data) (NICR : ℕ) (startId : Address) :
    AgreesUpTo R (ascendList d nicr NICR startId) (ascendList d (known nicr) NICR startId) := by
  refine AgreesUpTo.bind ?_ fun last _ => ?_
  · unfold fitsAfterTail
    split_ifs
    · exact (agrees_known h _).bind fun _ _ => .refl _
    · exact .refl _
  · cases last with
    | true => exact .refl _
    | false => exact ascendLoop_agrees h _ _ _ _ _

theorem checkedHint_agrees (d : Data) (id : Address) (wrongSide : ℕ → Bool) :
    AgreesUpTo R (checkedHint d nicr id wrongSide) (checkedHint d (known nicr) id wrongSide) := by
  unfold checkedHint
  split_ifs
  · exact .refl _
  · exact .refl _
  · exact (agrees_known h _).bind fun _ _ => .refl _

theorem insertPosition_agrees (d : Data) (NICR : ℕ) (prevId nextId : Address) :
    AgreesUpTo R (insertPosition d nicr NICR prevId nextId) (insertPosition d (known nicr) NICR prevId nextId) := by
  refine (validInsertPosition_agrees h _ _ _ _).bind fun valid _ => ?_
  cases valid with
  | true => exact .refl _
  | false =>
    refine (checkedHint_agrees h _ _ _).bind fun a _ => (checkedHint_agrees h _ _ _).bind fun b _ => ?_
    split_ifs
    · exact descendList_agrees h _ _ _
    · exact ascendList_agrees h _ _ _
    · exact descendList_agrees h _ _ _

/-- a node can be put back into a list that has room, wherever the hints point -/
theorem failsFor_reInsert (hc : IsChain d ids) (hid : id ∈ ids) (hroom : d.size ≤ d.maxSize)
    (hpos : 0 < NICR ∨ R (.error "SortedTroves: NICR must be positive")) :
    FailsFor R (reInsert d nicr id NICR prevId nextId) := by
  refine .bind (failsFor_require (.inl ((hc.contains_iff id).2 hid))) fun _ _ => .bind (failsFor_require hpos) fun _ hN =>
    .bind (.of_succeeds (remove_succeeds hc hid)) fun d₁ hd₁ => ?_
  obtain ⟨xs, ys, rfl⟩ := List.append_of_mem hid
  have hchain := remove_split hc hd₁
  have hout : contains d₁ id = false := by
    rw [← Bool.not_eq_true, hchain.contains_iff]
    exact (List.nodup_cons.1 (List.nodup_middle.1 hc.nodup)).1
  have hsize := remove_size hd₁
  have hfull : isFull d₁ = false := by
    have hlen := hc.size
    rw [List.length_append, List.length_cons] at hlen
    rw [isFull, decide_eq_false_iff_not, remove_maxSize hd₁]
    omega
  refine .bind (failsFor_require (.inl hfull)) fun _ _ => .bind (failsFor_require (.inl hout)) fun _ _ =>
    .bind (failsFor_require (.inl (hc.mem_ne_zero hid))) fun _ _ => .bind (failsFor_require (.inl (require_ok.1 hN))) fun _ _ =>
    .bind ?_ fun _ _ => .bind (.of_succeeds ⟨_, uadd_ok.2 ⟨hchain.size_lt, rfl⟩⟩) fun _ _ => .pure _
  exact (insertPosition_agrees h d₁ NICR prevId nextId).failsFor
    (.of_succeeds (insertPosition_succeeds hchain (fun a => (nicr a).shown) NICR prevId nextId))

end Searches

end SimContracts.SortedTroves

namespace SimContracts.Protocol

open Solidity TroveManager BorrowerOperations

variable {c : Config} {env : Env} {s s' s₀ s₁ : System} {a b sender : Address} {price n : ℕ} {t t' : RedemptionTotals}
  {hint : PartialRedemptionHint} {w : SingleRedemptionValues} {xs : List Address} {R : Revert → Prop}

/-! ## Room in the list -/

/-- the list has at most as many nodes as it may have -/
def HasRoom (s : System) : Prop := s.sortedTroves.size ≤ s.sortedTroves.maxSize

theorem HasRoom.removed (h : HasRoom s) (hr : SortedTroves.remove s.sortedTroves b = .ok s'.sortedTroves) : HasRoom s' := by
  rw [HasRoom, SortedTroves.remove_size hr, SortedTroves.remove_maxSize hr]
  exact (Nat.sub_le _ _).trans h

theorem insert_room {d d' : SortedTroves.Data} {nicr : Address → Res ℕ} {NICR : ℕ} {p n : Address} (hle : d.size ≤ d.maxSize)
    (h : SortedTroves.insert d nicr b NICR p n = .ok d') : d'.size ≤ d'.maxSize := by
  simp only [SortedTroves.insert, require_bind] at h
  obtain ⟨hfull, -, -, -, h⟩ := h
  obtain ⟨⟨p', n'⟩, -, h⟩ := bind_ok.1 h
  simp only [uadd_bind, pure_ok] at h
  obtain ⟨-, rfl⟩ := h
  have hne : d.size ≠ d.maxSize := of_decide_eq_false hfull
  dsimp only
  rw [SortedTroves.link_maxSize]
  omega

theorem HasRoom.edited {coll debt : ℕ} (h : HasRoom s) (he : Edited s s' b coll debt) : HasRoom s' := by
  obtain ⟨nicr, NICR, p, n, -, -, hre⟩ := he.list
  simp only [SortedTroves.reInsert, require_bind] at hre
  obtain ⟨-, -, hre⟩ := hre
  obtain ⟨d₁, hremove, hinsert⟩ := bind_ok.1 hre
  refine insert_room ?_ hinsert
  rw [SortedTroves.remove_size hremove, SortedTroves.remove_maxSize hremove]
  exact (Nat.sub_le _ _).trans h

/-- only the creation of a trove makes the list longer, and the list checks it -/
theorem move_room {plan : Plan} (h : HasRoom s) (hm : Move c s₀ plan s s') : HasRoom s' := by
  have hsame : s'.sortedTroves = s.sortedTroves → HasRoom s' := fun hs => by rwa [HasRoom, hs]
  cases hm with
  | frame hf => exact hsame hf.sortedTroves
  | settle b pw pd hhas hpw hpd hmoved => exact hsame hmoved.same.2
  | edit b coll debt hplan harrived hdebt he => exact h.edited he
  | create b coll debt NICR hplan hstart hnew hdebt hN hc =>
    obtain ⟨nicr, p, n, -, hinsert⟩ := hc.list
    exact insert_room h hinsert
  | close b status hc => exact h.removed hc.list
  | liquidate b t ht hmoved hc =>
    have hlist := hmoved.same.2
    exact HasRoom.removed (by rwa [HasRoom, hlist]) hc.list
  | redistribute coll hpos hred =>
    obtain ⟨rw, ew, rd, ed, u, -, -, -, rfl⟩ := hred.state
    exact h
  | snapshot coll hopen hs =>
    obtain ⟨-, rfl⟩ := updateSystemSnapshots_ok hs
    exact h

theorem list_has_room (calls : List (Tx c)) : HasRoom (reached c calls) := by
  have hrun : Registry (reached c calls) ∧ HasRoom (reached c calls) :=
    run_inv (exec c) (P := fun _ _ => True) (fun _ _ _ h _ hexec => exec_keeps (fun _ _ _ => move_room) h hexec) _ calls
      ⟨init_registry c, Nat.zero_le _⟩ (along_true (exec c) _ calls)
  exact hrun.2

/-! ## One trove -/

/-- what the steps of a redemption need of the state, and keep -/
structure Walking (c : Config) (s : System) : Prop where
  registry : Registry s
  owners : Owners s
  room : HasRoom s
  covered : Covered c s
  defaultPool : 0 ≤ gap c s .defaultPool

theorem Walking.held (h : Walking c s) : s.defaultPool.WSTETH ≤ s.wsteth.balanceOf c.defaultPool := by
  have hgap := h.defaultPool
  simp only [gap] at hgap
  omega

theorem Posts.walking {p q x y : ℤ} (h : Posts c s s' (entry p q x y)) (hs : Walking c s) (hreg : Registry s')
    (ho : Owners s') (hroom : HasRoom s') : Walking c s' := by
  refine ⟨hreg, ho, hroom, h.covered hs.covered, ?_⟩
  rw [(h hs.covered.1).2]
  exact (add_zero (gap c s .defaultPool)).symm ▸ hs.defaultPool

theorem Walking.settled (h : Walking c s) (hsettle : settlePendingRewards c s b = .ok s') : Walking c s' := by
  obtain ⟨-, howners, hkept⟩ := settlePendingRewards_same hsettle
  have hmoves : Moves c s ⟨none, 0⟩ s s' := settlePendingRewards_moves hsettle
  exact (settlePendingRewards_posts hsettle).walking h (hmoves.keeps (fun _ _ => move_registry) h.registry)
    (h.owners.congr howners hkept) (hmoves.keeps (fun _ _ => move_room) h.room)

theorem Walking.redeemed {maxSIMamount : ℕ} (h : Walking c s) (hactive : (trove s b).status = .active)
    (hredeem : redeemCollateralFromTrove c s b maxSIMamount price hint = .ok (s', w)) : Walking c s' := by
  have hposts : ∃ q x, Posts c s s' (entry 0 q x 0) := by
    rcases redeemCollateralFromTrove_posts hredeem with ⟨-, rfl⟩ | ⟨-, hp⟩
    · exact ⟨0, 0, (Posts.refl c s').zero⟩
    · exact ⟨_, _, hp⟩
  obtain ⟨q, x, hposts⟩ := hposts
  obtain ⟨-, ⟨-, -, s₁, s₂, hclear, hshut, hpay⟩ | ⟨-, NICR, -, ⟨-, rfl, -⟩ | ⟨-, -, hmin, he⟩⟩⟩ :=
    redeemCollateralFromTrove_ok hredeem
  · have hclosed := shut_closed hclear hshut
    have hframe := redeemCloseTrove_frame hpay
    obtain ⟨r, t, htm⟩ := hframe.troveManager
    have hroom : HasRoom s₂ := h.room.removed hclosed.list
    exact hposts.walking h ((h.registry.closed hclosed).frame hframe)
      ((h.owners.closed hactive hclosed).congr (by rw [htm]) fun a => by simp [trove, htm])
      (by rwa [HasRoom, hframe.sortedTroves])
  · exact h
  · exact hposts.walking h (h.registry.edited (.inl hmin) he) (h.owners.edited he) (h.room.edited he)

theorem failsFor_settlePendingRewards (hR : R (.panic 0x11)) (h : Walking c s) (b : Address) :
    FailsFor R (settlePendingRewards c s b) := by
  unfold settlePendingRewards
  split_ifs with hhas
  · rw [hasPendingRewards, decide_eq_true_eq] at hhas
    exact .bind (failsFor_require (.inl hhas.1)) fun _ _ => .bind (failsFor_pendingReward hR _ _ _) fun _ _ =>
      .bind (failsFor_pendingReward hR _ _ _) fun _ _ => .bind (failsFor_uadd hR _ _) fun _ _ =>
      .bind (failsFor_uadd hR _ _) fun _ _ => failsFor_movePending hR h.held
  · exact .ok _

theorem failsFor_computeNominalCR (hR : R (.panic 0x11)) (coll debt : ℕ) : FailsFor R (computeNominalCR coll debt) := by
  unfold computeNominalCR
  split_ifs with hpos
  · exact .bind (failsFor_umul hR _ _) fun _ _ => failsFor_udiv hpos
  · exact .ok _

theorem failsFor_getNominalICR (hR : R (.panic 0x11)) (s : System) (b : Address) : FailsFor R (getNominalICR s b) := by
  refine .bind ?_ fun _ _ => failsFor_computeNominalCR hR _ _
  exact .bind (failsFor_pendingReward hR _ _ _) fun _ _ => .bind (failsFor_pendingReward hR _ _ _) fun _ _ =>
    .bind (failsFor_uadd hR _ _) fun _ _ => .bind (failsFor_uadd hR _ _) fun _ _ => .pure _

/-- stakes can be computed from the snapshots -/
def Snapshots (s : System) : Prop := s.troveManager.totalCollateralSnapshot ≠ 0 → 0 < s.troveManager.totalStakesSnapshot

theorem failsFor_recomputeStake (hR : R (.panic 0x11)) (h : Snapshots s ∨ R (.panic 0x01)) (b : Address) :
    FailsFor R (recomputeStake s b) := by
  refine .bind ?_ fun _ _ => .bind (failsFor_usub hR _ _) fun _ _ => .bind (failsFor_uadd hR _ _) fun _ _ => .pure _
  unfold computeNewStake
  split_ifs with h0
  · exact .ok _
  · exact .bind (failsFor_ite (h.imp_left fun h => h h0)) fun _ _ => .bind (failsFor_umul hR _ _) fun _ _ =>
      failsFor_udiv (Nat.pos_of_ne_zero h0)

theorem failsFor_redeemCloseTrove (hR : R (.panic 0x11)) (h : Covered c s) (b : Address) (WSTETH : ℕ) :
    FailsFor R (redeemCloseTrove c s b WSTETH) := by
  refine .bind (.bind (failsFor_require (.inl rfl)) fun _ _ => .bind (failsFor_uadd hR _ _) fun _ _ => .pure _) fun s₁ h1 => ?_
  obtain rfl := CollSurplusPool.accountSurplus_ok h1
  exact failsFor_sendWSTETH hR (.inr (.inl rfl)) (c.pool_ne_zero (by simp [Config.pools])) h.held

/-- no ratio to put a trove back at -/
def zeroRatio : Revert := .error "SortedTroves: NICR must be positive"

theorem failsFor_redeemCollateralFromTrove (hR : R (.panic 0x11)) (hone : R onlyOneTrove) (hzero : R zeroRatio)
    (hprice : 0 < price) (h : Walking c s) (hsnapshots : Snapshots s ∨ R (.panic 0x01)) (hactive : (trove s b).status = .active)
    (maxSIMamount : ℕ) (hint : PartialRedemptionHint) :
    FailsFor R (redeemCollateralFromTrove c s b maxSIMamount price hint) := by
  refine .bind (failsFor_umul hR _ _) fun _ _ => .bind (failsFor_udiv hprice) fun lot _ => .bind (failsFor_usub hR _ _)
    fun newDebt _ => .bind (failsFor_usub hR _ _) fun newColl _ => ?_
  by_cases hpaid : newDebt = 0
  · rw [if_pos hpaid]
    refine .bind (failsFor_clearStake hR _ _) fun s₁ h1 => .bind (failsFor_shutTrove (.inl hone) h.registry h.owners hactive
      (by decide) h1) fun s₂ h2 => .bind ?_ fun _ _ => .pure _
    have hclosed := shut_closed h1 (shutTrove_ok h2)
    have hcovered : Covered c s₂ := (closed_posts hclosed).covered h.covered
    exact failsFor_redeemCloseTrove hR hcovered _ _
  · rw [if_neg hpaid]
    refine .bind (failsFor_computeNominalCR hR _ _) fun newNICR _ => ?_
    split_ifs
    · exact .pure _
    · obtain ⟨ids, hchain, hids⟩ := h.registry.list
      refine .bind (.bind (SortedTroves.failsFor_reInsert (failsFor_getNominalICR hR s) hchain ((hids b).2 hactive) h.room
        (.inr hzero)) fun _ _ => .pure _) fun s₁ h1 => .bind (failsFor_recomputeStake hR ?_ _) fun _ _ => .pure _
      obtain ⟨list, -, h1⟩ := bind_ok.1 h1
      cases h1
      exact hsnapshots

/-! ## The walk -/

/-- a walk over open troves -/
theorem failsFor_redeemLoop (hR : R (.panic 0x11)) (hone : R onlyOneTrove) (hzero : R zeroRatio) (hprice : 0 < price)
    (hint : PartialRedemptionHint) (hw : Walk s₀ t.s xs) (hall : ∀ a ∈ xs, (trove s₀ a).status = .active)
    (hsnapshots : Snapshots s₀ ∨ R (.panic 0x01)) (h : Walking c t.s) : FailsFor R (redeemLoop c price hint n (xs.getLastD 0) t) := by
  induction n generalizing xs t with
  | zero => exact .ok _
  | succ n ih =>
    by_cases hdone : xs.getLastD 0 = 0 ∨ t.remainingSIM = 0
    · rw [redeemLoop_done hdone]
      exact .ok _
    have hb : xs.getLastD 0 ≠ 0 := fun e => hdone (.inl e)
    rw [redeemLoop, if_neg hdone]
    obtain ⟨ys, hys⟩ := getLastD_cases xs rfl hb
    generalize xs.getLastD 0 = b at *
    subst hys
    refine .bind (failsFor_settlePendingRewards hR h b) fun s₁ h1 => ?_
    have hsettled := settlePendingRewards_settled h1
    have h₁ : Walking c s₁ := h.settled h1
    have hactive : (trove s₁ b).status = .active := by
      rw [((settlePendingRewards_same h1).2.2 b).1, (hw.same b (by simp)).fields.2.2.2]
      exact hall b (by simp)
    have hsnapshots₁ : Snapshots s₁ ∨ R (.panic 0x01) := by
      rwa [Snapshots, hsettled.arrived.totalCollateralSnapshot, hsettled.arrived.totalStakesSnapshot,
        hw.totalCollateralSnapshot, hw.totalStakesSnapshot]
    refine .bind (failsFor_redeemCollateralFromTrove hR hone hzero hprice h₁ hsnapshots₁ hactive _ _) fun r h2 => ?_
    obtain ⟨s₂, w⟩ := r
    dsimp only
    split_ifs
    · exact .pure _
    refine .bind (failsFor_uadd hR _ _) fun _ _ => .bind (failsFor_uadd hR _ _) fun _ _ => .bind (failsFor_usub hR _ _)
      fun rest hrest => ?_
    obtain ⟨-, rfl⟩ := usub_ok.1 hrest
    obtain ⟨⟨hlot, -, -, -⟩, hcase⟩ := redeemCollateralFromTrove_ok h2
    rcases hcase with ⟨-, -, s₃, s₄, h3, h4, h5⟩ | ⟨hlt, -⟩
    · rw [hw.getPrev.1]
      have hgone := hsettled.gone (shut_closed h3 h4).gone
      exact ih ((hw.pass hgone).frame (redeemCloseTrove_frame h5)) (fun a ha => hall a (List.mem_append_left _ ha))
        (h₁.redeemed hactive h2)
    · -- a trove that is left with debt takes all that remained
      rw [redeemLoop_done (.inr (by dsimp only; omega))]
      exact .ok _

/-- the search for the first trove passes every node at most once -/
theorem failsFor_findRedeemable (hR : R (.panic 0x11)) {zs : List Address} (hc : SortedTroves.IsChain s.sortedTroves (xs ++ zs))
    {rounds : ℕ} (hrounds : xs.length < rounds) : FailsFor R (findRedeemable s price rounds (xs.getLastD 0)) := by
  induction xs using List.reverseRecOn generalizing zs rounds with
  | nil =>
    obtain ⟨rounds, rfl⟩ := Nat.exists_eq_succ_of_ne_zero (Nat.ne_of_gt hrounds)
    exact .ok _
  | append_singleton us u ih =>
    obtain ⟨rounds, rfl⟩ := Nat.exists_eq_succ_of_ne_zero (Nat.ne_of_gt (Nat.zero_lt_of_lt hrounds))
    rw [List.append_assoc, List.singleton_append] at hc
    rw [List.getLastD_concat, findRedeemable, if_neg (hc.mem_ne_zero (by simp))]
    refine .bind (failsFor_getCurrentICR hR _ _ _) fun ICR _ => ?_
    split_ifs
    · rw [hc.getPrev_eq]
      refine ih hc ?_
      rw [List.length_append, List.length_singleton] at hrounds
      exact Nat.lt_of_succ_lt_succ hrounds
    · exact .pure _

theorem failsFor_firstBorrower (hR : R (.panic 0x11)) (hreg : Registry s) (first : Address) :
    FailsFor R (firstBorrower s price first) := by
  refine .bind ?_ fun valid _ => ?_
  · unfold isValidFirstRedemptionHint
    split_ifs
    · exact .ok _
    refine .bind (failsFor_getCurrentICR hR _ _ _) fun _ _ => ?_
    dsimp only
    split_ifs
    · exact .pure _
    · exact .pure _
    · exact .bind (failsFor_getCurrentICR hR _ _ _) fun _ _ => .pure _
  · cases valid with
    | true => exact .pure _
    | false =>
      obtain ⟨ids, hchain, -⟩ := hreg.list
      have hlast : SortedTroves.getLast s.sortedTroves = ids.getLastD 0 := hchain.tail
      change FailsFor R (firstRedeemable s price)
      rw [firstRedeemable, hlast, SortedTroves.getSize, hchain.size]
      have hwhole : SortedTroves.IsChain s.sortedTroves (ids ++ []) := by rwa [List.append_nil]
      exact failsFor_findRedeemable hR hwhole (Nat.lt_succ_self _)

/-! ## The end of a redemption -/

/-- what a redemption can fail for -/
inductive RedemptionFailure (env : Env) (s : System) : Revert → Prop where
  | maxFee : RedemptionFailure env s (.error "Max fee percentage must be between 0.5% and 100%")
  | bootstrap : RedemptionFailure env s (.error "TroveManager: Redemptions are not allowed during bootstrap phase")
  | lowTCR : RedemptionFailure env s (.error "TroveManager: Cannot redeem when TCR < MCR")
  | noAmount : RedemptionFailure env s (.error "TroveManager: Amount must be greater than zero")
  | balance : RedemptionFailure env s
      (.error "TroveManager: Requested redemption amount must be <= user's SIM token balance")
  | onlyOne : RedemptionFailure env s onlyOneTrove
  | zeroRatio : RedemptionFailure env s zeroRatio
  | nothing : RedemptionFailure env s (.error "TroveManager: Unable to redeem any amount")
  | feeTakesAll : RedemptionFailure env s (.error "TroveManager: Fee would eat up all returned collateral")
  | feeRefused : RedemptionFailure env s (.error "Fee exceeded provided maximum")
  /-- the assertion on the new base rate, when nothing is left of the old one -/
  | rate (h : calcDecayedBaseRate s env.timestamp = .ok 0) : RedemptionFailure env s (.panic 0x01)
  /-- the assertion on the stakes at the last liquidation -/
  | stakes (h : ¬ Snapshots s) : RedemptionFailure env s (.panic 0x01)
  | arithmetic : RedemptionFailure env s (.panic 0x11)
  | priceFeed (e : Revert) (h : env.fetchPrice = .error e) : RedemptionFailure env s e
  | distributor (e : Revert) (h : env.checkpoint = .error e) : RedemptionFailure env s e

theorem failsFor_calcDecayedBaseRate (hR : R (.panic 0x11)) (s : System) (timestamp : ℕ) :
    FailsFor R (calcDecayedBaseRate s timestamp) := by
  refine .bind (.bind (failsFor_usub hR _ _) fun _ _ => failsFor_udiv (by decide)) fun minutes _ => .bind ?_ fun _ _ =>
    .bind (failsFor_umul hR _ _) fun _ _ => failsFor_udiv (by decide)
  obtain ⟨r, hr, -⟩ := decPow_le (show MINUTE_DECAY_FACTOR ≤ DECIMAL_PRECISION by decide) minutes
  exact .of_succeeds ⟨r, hr⟩

theorem failsFor_updateBaseRateFromRedemption (hR : R (.panic 0x11)) {drawn supply timestamp : ℕ} (hsupply : 0 < supply)
    (hrate : calcDecayedBaseRate s timestamp = .ok 0 → R (.panic 0x01)) :
    FailsFor R (updateBaseRateFromRedemption s drawn price supply timestamp) := by
  refine .bind (failsFor_calcDecayedBaseRate hR _ _) fun decayed hdecayed => .bind (failsFor_umul hR _ _) fun _ _ =>
    .bind (failsFor_udiv hsupply) fun _ _ => .bind (failsFor_uadd hR _ _) fun newBaseRate hnew =>
    .bind (failsFor_ite ?_) fun _ _ => .bind (failsFor_usub hR _ _) fun _ _ => ?_
  · -- the new rate is zero only if the old one is
    by_cases hzero : decayed = 0
    · exact .inr (hrate (hzero ▸ hdecayed))
    · obtain ⟨-, rfl⟩ := uadd_ok.1 hnew
      exact .inl (lt_min (Nat.add_pos_left (Nat.pos_of_ne_zero hzero) _) (by decide))
  · split_ifs
    · exact .pure _
    · exact .pure _

/-! ## The payments -/

theorem failsFor_getRedemptionFee (s₀ s : System) (drawn : ℕ) :
    FailsFor (RedemptionFailure env s₀) (getRedemptionFee s drawn) :=
  .bind (.bind (failsFor_uadd .arithmetic _ _) fun _ _ => .pure _) fun _ _ => .bind (failsFor_umul .arithmetic _ _) fun _ _ =>
    .bind (failsFor_udiv (by decide)) fun _ _ => .bind (failsFor_require (.inr .feeTakesAll)) fun _ _ => .pure _

theorem failsFor_burn {account : Address} {amount : ℕ} (haccount : account ≠ 0) (hle : amount ≤ s.sim.balanceOf account) :
    FailsFor R (SIMToken.burn c c.troveManager s account amount) := by
  refine .bind (failsFor_require (.inl (.inr (.inl rfl)))) fun _ _ => .bind ?_ fun _ _ => .pure _
  exact .bind (failsFor_require (.inl haccount)) fun _ _ => .bind (failsFor_require (.inl hle)) fun _ _ => .pure _

/-- the Active Pool can pay the fee and the redeemer -/
theorem failsFor_finishRedemption {supply : ℕ} (hfee : c.wstETHVeDistributor ≠ 0) (hsender : sender ≠ 0) (hsupply : 0 < supply)
    (hs : Covered c t.s) (hrate : SameRate s₀ t.s) (hheld : t.totalSIMToRedeem ≤ t.s.sim.balanceOf sender) (maxFee : ℕ) :
    FailsFor (RedemptionFailure env s₀) (finishRedemption c env sender price maxFee supply t) := by
  have hdecayed : calcDecayedBaseRate t.s env.timestamp = calcDecayedBaseRate s₀ env.timestamp := by
    simp only [calcDecayedBaseRate, minutesPassedSinceLastFeeOp, hrate.baseRate, hrate.clock]
  have hve : c.wstETHVeDistributor ≠ c.activePool := fun e => c.wstETHVeDistributor_outside (by simp [e])
  refine .bind (failsFor_require (.inr .nothing)) fun _ hpos => ?_
  have hdrawn : 0 < t.totalWSTETHDrawn := require_ok.1 hpos
  refine .bind (failsFor_updateBaseRateFromRedemption .arithmetic hsupply fun h0 => .rate (hdecayed ▸ h0)) fun s₁ h1 => ?_
  obtain ⟨hs₁, hsim₁⟩ : Covered c s₁ ∧ s₁.sim = t.s.sim := by
    obtain ⟨r, time, rfl⟩ := updateBaseRateFromRedemption_ok h1
    refine ⟨(Posts.zero (Posts.unseen ?_ ?_ ?_ ?_ ?_ ?_ ?_)).covered hs, rfl⟩ <;> rfl
  refine .bind (failsFor_getRedemptionFee _ _ _) fun fee _ => .bind ?_ fun _ _ => ?_
  · exact .bind (failsFor_umul .arithmetic _ _) fun _ _ => .bind (failsFor_udiv hdrawn) fun _ _ =>
      failsFor_require (.inr .feeRefused)
  refine .bind (failsFor_sendWSTETH .arithmetic (.inr (.inl rfl)) hfee hs₁.held) fun s₂ h2 => .bind .distributor fun _ _ =>
    .bind (failsFor_usub .arithmetic _ _) fun _ _ => ?_
  have hs₂ : Covered c s₂ := (sendWSTETH_posts h2 hve).covered hs₁
  have hsim : s₂.sim = t.s.sim := by
    obtain ⟨-, u, -, hn⟩ := ActivePool.sendWSTETH_ok h2
    exact hn.sim.trans hsim₁
  refine .bind (failsFor_burn hsender (hsim ▸ hheld)) fun s₃ h3 =>
    .bind (failsFor_decreaseSIMDebt .arithmetic (.inr (.inl rfl))) fun s₄ h4 => ?_
  -- neither the burn nor the debt is about wstETH
  obtain ⟨u, -, rfl⟩ := SIMToken.burn_ok h3
  obtain ⟨-, rfl⟩ := ActivePool.decreaseSIMDebt_ok h4
  exact failsFor_sendWSTETH .arithmetic (.inr (.inl rfl)) hsender hs₂.held

/-! ## Main result -/

/-- some debt with a ratio of at least MCR has a price -/
theorem price_pos {supply : ℕ} (hTCR : requireTCRoverMCR s price = .ok ()) (hsupply : getEntireSystemDebt s = .ok supply)
    (hpos : 0 < supply) : 0 < price := by
  obtain ⟨coll, -, hMCR⟩ := requireTCRoverMCR_ok hTCR hsupply hpos
  by_contra h0
  obtain rfl := Nat.eq_zero_of_not_pos h0
  rw [Nat.mul_zero, Nat.zero_div] at hMCR
  exact absurd hMCR (by decide)

theorem reached_walking (calls : List (Tx c)) (hlen : calls.length ≤ 2 ^ 128) : Walking c (reached c calls) := by
  have hbalanced : Balanced c (reached c calls) := reached_balanced calls
  exact ⟨reached_registry calls, (reached_owners calls hlen).1, list_has_room calls,
    ⟨hbalanced.sound, hbalanced.covered _⟩, hbalanced.covered _⟩

/-- **Why a redemption fails.** In every reachable state a redemption fails only for one of the documented refusals, an
arithmetic overflow or underflow, the price feed or the distributor, or in one of two assertions: the base rate would stay zero,
or stakes can not be computed. No division, no list operation and no transfer fails, whatever the hints. -/
theorem redemption_failures (c : Config) (hfee : c.wstETHVeDistributor ≠ 0) (calls : List (Tx c)) (hlen : calls.length ≤ 2 ^ 128)
    (env : Env) (sender : Account c) (hsender : sender.address ≠ 0) (args : RedeemArgs) :
    FailsFor (RedemptionFailure env (reached c calls)) (exec c (reached c calls) ⟨env, sender, .redeemCollateral args⟩) := by
  have hwalking : Walking c (reached c calls) := reached_walking calls hlen
  have hbalanced : Balanced c (reached c calls) := reached_balanced calls
  generalize hs : reached c calls = s at *
  have hsnapshots : Snapshots s ∨ RedemptionFailure env s (.panic 0x01) := (em _).imp_right .stakes
  refine .bind (failsFor_require (.inr .maxFee)) fun _ _ => .bind ?_ fun _ _ => .bind .priceFeed fun price _ =>
    .bind ?_ fun _ hTCR => .bind (failsFor_require (.inr .noAmount)) fun _ hamount =>
    .bind (failsFor_require (.inr .balance)) fun _ hle => .bind (failsFor_uadd .arithmetic _ _) fun supply hsupply => ?_
  · exact .bind (failsFor_uadd .arithmetic _ _) fun _ _ => failsFor_require (.inr .bootstrap)
  · refine .bind ?_ fun _ _ => failsFor_require (.inr .lowTCR)
    exact .bind (failsFor_uadd .arithmetic _ _) fun _ _ => .bind (failsFor_uadd .arithmetic _ _) fun _ _ =>
      failsFor_computeCR .arithmetic _ _ _
  have hbalance := hbalanced.balance_le hsupply sender.address
  have hamount : 0 < args.SIMamount := require_ok.1 hamount
  have hle : args.SIMamount ≤ s.sim.balanceOf sender.address := require_ok.1 hle
  have hpos : 0 < supply := hamount.trans_le (hle.trans hbalance)
  have hprice : 0 < price := price_pos hTCR hsupply hpos
  refine .bind (failsFor_assert hbalance) fun _ _ =>
    .bind (failsFor_firstBorrower .arithmetic hwalking.registry _) fun user huser => ?_
  obtain ⟨ids, hc, -⟩ := hwalking.registry.list
  obtain ⟨xs, hw, rfl⟩ := exists_walk hc (firstBorrower_mem hc huser)
  refine .bind (failsFor_redeemLoop .arithmetic .onlyOne .zeroRatio hprice _ hw (hw.active hwalking.registry) hsnapshots hwalking)
    fun t ht => ?_
  have hredeemed := redeemLoop_redeemed hw ht
  have hdrawn := redeemLoop_drawn (.start s price args.SIMamount) ht
  refine failsFor_finishRedemption hfee hsender hpos ((redeemLoop_posts ht).covered hwalking.covered) hdrawn.rate ?_ _
  rw [hredeemed.sim]
  exact (Nat.le_of_add_right_le hdrawn.sum.le).trans hle

/-- Bob redeems so little that the base rate would stay zero -/
theorem redemption_failures_bob :
    exec exampleConfig (reached exampleConfig twoTroves) (atPrice (2000 * 10 ^ 18) bob (.redeemCollateral smallRedemption)) =
        .error (.panic 0x01) ∧
      RedemptionFailure (atPrice (2000 * 10 ^ 18) bob (.redeemCollateral smallRedemption)).env
        (reached exampleConfig twoTroves) (.panic 0x01) := by
  have hfailure : (exec exampleConfig (reached exampleConfig twoTroves)
      (atPrice (2000 * 10 ^ 18) bob (.redeemCollateral smallRedemption))).failure = some (.panic 0x01) := by decide +kernel
  cases hexec : exec exampleConfig (reached exampleConfig twoTroves)
      (atPrice (2000 * 10 ^ 18) bob (.redeemCollateral smallRedemption)) with
  | ok s' =>
    rw [hexec] at hfailure
    cases hfailure
  | error e =>
    rw [hexec] at hfailure
    obtain rfl := Option.some.inj hfailure
    exact ⟨rfl, redemption_failures exampleConfig (by decide) twoTroves (by decide)
      (atPrice (2000 * 10 ^ 18) bob (.redeemCollateral smallRedemption)).env bob (by decide) smallRedemption _ hexec⟩

end SimContracts.Protocol
