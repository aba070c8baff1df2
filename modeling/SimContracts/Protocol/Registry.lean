/-
Which troves exist is recorded four times: in the status of each trove, in the array `TroveOwners`, in the index each
trove has in it, and in the nodes of the sorted list. The four records agree after any calls (`records_agree`), an
address without a trove has no collateral, debt or stake, and `totalStakes` is the sum of the stakes.

`Registry` is what does not depend on the array. The index of a new owner is cast to `uint128`, so the array is only
right while it has at most `2 ^ 128` entries; a run of that many transactions is the only bound (the source: "Max array
size is 2**128 - 1").
-/
import SimContracts.Core.Roster
import SimContracts.Protocol.Moves

namespace SimContracts.Protocol

open Solidity TroveManager BorrowerOperations

variable {c : Config} {s s' s₀ : System} {a b : Address}

/-- the nodes of the list are the troves, nothing is left of a closed trove, and the stakes add up -/
structure Registry (s : System) : Prop where
  list : ∃ ids, SortedTroves.IsChain s.sortedTroves ids ∧ ∀ a, a ∈ ids ↔ (trove s a).status = .active
  idle : ∀ a, (trove s a).status ≠ .active → (trove s a).coll = 0 ∧ (trove s a).debt = 0 ∧ (trove s a).stake = 0
  minDebt : ∀ a, (trove s a).status = .active → MIN_NET_DEBT ≤ (trove s a).debt
  totalStakes : s.troveManager.totalStakes = ∑ a, (trove s a).stake

/-- `TroveOwners` holds the troves, each at its index -/
structure Owners (s : System) : Prop where
  roster : Roster s.troveManager.TroveOwners fun a => (trove s a).arrayIndex
  mem : ∀ a, a ∈ s.troveManager.TroveOwners ↔ (trove s a).status = .active

theorem init_registry (c : Config) : Registry (init c) where
  list := ⟨[], SortedTroves.init_chain _, fun a => by simp [trove, init]⟩
  idle := fun a _ => ⟨rfl, rfl, rfl⟩
  minDebt := fun a h => by simp [trove, init] at h
  totalStakes := by simp [trove, init]

theorem init_owners (c : Config) : Owners (init c) := ⟨.nil _, fun a => by simp [trove, init]⟩

/-! ## One move -/

/-- the other records do not matter -/
theorem Registry.congr (h : Registry s) (hTroves : s'.troveManager.Troves = s.troveManager.Troves)
    (hstakes : s'.troveManager.totalStakes = s.troveManager.totalStakes) (hlist : s'.sortedTroves = s.sortedTroves) :
    Registry s' := by
  have htrove : ∀ a, trove s' a = trove s a := fun a => congrFun hTroves a
  refine ⟨?_, ?_, ?_, ?_⟩
  · simp only [hlist, htrove]
    exact h.list
  · simp only [htrove]
    exact h.idle
  · simp only [htrove]
    exact h.minDebt
  · simp only [htrove, hstakes]
    exact h.totalStakes

/-- the array and the records of the troves are as they were, but for amounts and stakes -/
theorem Owners.congr (h : Owners s) (howners : s'.troveManager.TroveOwners = s.troveManager.TroveOwners)
    (hkept : ∀ a, (trove s' a).status = (trove s a).status ∧ (trove s' a).arrayIndex = (trove s a).arrayIndex) :
    Owners s' := by
  refine ⟨?_, fun a => ?_⟩
  · simp only [fun a => (hkept a).2, howners]
    exact h.roster
  · rw [(hkept a).1, howners]
    exact h.mem a

theorem Owners.of_eq (h : Owners s) (howners : s'.troveManager.TroveOwners = s.troveManager.TroveOwners)
    (hTroves : s'.troveManager.Troves = s.troveManager.Troves) : Owners s' :=
  h.congr howners fun a => by simp [trove, hTroves]

theorem Registry.frame (h : Registry s) (hf : Frame s s') : Registry s' := by
  obtain ⟨r, t, ht⟩ := hf.troveManager
  refine h.congr ?_ ?_ hf.sortedTroves <;> rw [ht]

/-- an existing trove gets other amounts and maybe another stake; its node may have moved -/
theorem Registry.write {t : Trove} (h : Registry s) (hactive : (trove s b).status = .active)
    (hstatus : t.status = .active) (hdebt : MIN_NET_DEBT ≤ t.debt)
    (hTroves : s'.troveManager.Troves = Function.update s.troveManager.Troves b t)
    (hle : (trove s b).stake ≤ s.troveManager.totalStakes)
    (hstakes : s'.troveManager.totalStakes = s.troveManager.totalStakes - (trove s b).stake + t.stake)
    (hlist : ∃ ids, SortedTroves.IsChain s'.sortedTroves ids ∧ ∀ a, a ∈ ids ↔ (trove s a).status = .active) :
    Registry s' := by
  have hself : trove s' b = t := by simp [trove, hTroves]
  have hother : ∀ a, a ≠ b → trove s' a = trove s a := fun a ha => by simp [trove, hTroves, ha]
  have hkept : ∀ a, (trove s' a).status = (trove s a).status := by
    intro a
    by_cases ha : a = b
    · rw [ha, hself, hstatus, hactive]
    · rw [hother a ha]
  refine ⟨?_, fun a ha => ?_, fun a ha => ?_, ?_⟩
  · simp only [hkept]
    exact hlist
  · have hab : a ≠ b := fun e => ha (by rw [e, hself, hstatus])
    rw [hother a hab] at ha ⊢
    exact h.idle a ha
  · by_cases hab : a = b
    · rw [hab, hself]
      exact hdebt
    · rw [hother a hab] at ha ⊢
      exact h.minDebt a ha
  · have hsum := Ledger.sum_replace (f := fun x => (trove s x).stake) (g := fun x => (trove s' x).stake) (a := b)
      fun x hx => by rw [hother x hx]
    simp only [hself] at hsum
    have htotal := h.totalStakes
    omega

/-- what a change of trove `b` leaves in the records -/
theorem BorrowerOperations.Edited.troves {coll debt : ℕ} (h : Edited s s' b coll debt) :
    (∃ stake, computeNewStake s coll = .ok stake ∧ trove s' b = { trove s b with coll, debt, stake }) ∧
      ∀ a, a ≠ b → trove s' a = trove s a := by
  obtain ⟨stake, hstake, -, htm⟩ := h.stake
  refine ⟨⟨stake, hstake, ?_⟩, fun a ha => ?_⟩
  · simp [trove, htm]
  · simp [trove, htm, ha]

/-- the node of a changed trove was in the list before, and is still in it -/
theorem Registry.edited {coll debt : ℕ} (h : Registry s) (hdebt : MIN_NET_DEBT ≤ debt ∨ (trove s b).debt ≤ debt)
    (he : Edited s s' b coll debt) : Registry s' := by
  obtain ⟨stake, -, hle, htm⟩ := he.stake
  obtain ⟨nicr, NICR, p, n, -, -, hre⟩ := he.list
  obtain ⟨ids, hc, hids⟩ := h.list
  obtain ⟨xs, ys, p', n', us, vs, rfl, -, hpos, hc'⟩ := SortedTroves.reInsert_chain hc hre
  have hactive : (trove s b).status = .active := (hids b).1 (by simp)
  refine h.write (t := { trove s b with coll, debt, stake }) hactive hactive ?_ (by rw [htm]) hle (by rw [htm])
    ⟨_, hc', fun a => ?_⟩
  · have hmin := h.minDebt b hactive
    rcases hdebt with hdebt | hdebt
    · exact hdebt
    · exact hmin.trans hdebt
  · rw [← hids a]
    have hsplit : a ∈ us ++ vs ↔ a ∈ xs ++ ys := by rw [hpos.split]
    simp only [List.mem_append, List.mem_cons] at hsplit ⊢
    tauto

theorem Owners.edited {coll debt : ℕ} (h : Owners s) (he : Edited s s' b coll debt) : Owners s' := by
  obtain ⟨stake, -, -, htm⟩ := he.stake
  refine h.congr (by rw [htm]) fun a => ?_
  by_cases ha : a = b
  · simp [trove, htm, ha]
  · simp [trove, htm, ha]

theorem createdManager_self (tm : TroveManager) (b : Address) (coll debt stake : ℕ) :
    (createdManager tm b coll debt stake).Troves b =
      { coll := (tm.Troves b).coll + coll, debt := (tm.Troves b).debt + debt, stake, status := .active,
        arrayIndex := tm.TroveOwners.length % 2 ^ 128 } := Function.update_self _ _ _

theorem createdManager_other (tm : TroveManager) (coll debt stake : ℕ) (ha : a ≠ b) :
    (createdManager tm b coll debt stake).Troves a = tm.Troves a := Function.update_of_ne ha _ _

/-- a new trove has the collateral and debt it was opened with -/
theorem BorrowerOperations.Created.trove_self {coll debt NICR : ℕ} (hc : Created s s' b coll debt NICR)
    (hidle : (trove s b).coll = 0 ∧ (trove s b).debt = 0) :
    (trove s' b).coll = coll ∧ (trove s' b).debt = debt ∧ (trove s' b).status = .active := by
  obtain ⟨stake, -, -, htm⟩ := hc.stake
  obtain ⟨hcoll, hdebt⟩ := hidle
  rw [trove] at hcoll hdebt
  rw [trove, htm, createdManager_self, hcoll, hdebt, Nat.zero_add, Nat.zero_add]
  exact ⟨rfl, rfl, rfl⟩

theorem Registry.created {coll debt NICR : ℕ} (h : Registry s) (hnew : (trove s b).status ≠ .active)
    (hdebt : MIN_NET_DEBT ≤ debt) (hc : Created s s' b coll debt NICR) : Registry s' := by
  obtain ⟨stake, -, hle, htm⟩ := hc.stake
  obtain ⟨nicr, p, n, -, hins⟩ := hc.list
  obtain ⟨ids, hchain, hids⟩ := h.list
  obtain ⟨-, -, -, p', n', xs, ys, hpos, hchain'⟩ := SortedTroves.insert_chain hchain hins
  obtain ⟨-, hdebt0, -⟩ := h.idle b hnew
  have hself : (trove s' b).status = .active ∧ (trove s' b).debt = (trove s b).debt + debt ∧
      (trove s' b).stake = stake := by
    rw [trove, htm, createdManager_self]
    exact ⟨rfl, rfl, rfl⟩
  have hother : ∀ a, a ≠ b → trove s' a = trove s a := fun a ha => by rw [trove, htm, createdManager_other _ _ _ _ ha, trove]
  refine ⟨⟨_, hchain', fun a => ?_⟩, fun a ha => ?_, fun a ha => ?_, ?_⟩
  · by_cases hab : a = b
    · rw [hab, hself.1]
      simp
    · rw [hother a hab, ← hids a, hpos.split]
      simp [hab]
  · have hab : a ≠ b := fun e => ha (e ▸ hself.1)
    rw [hother a hab] at ha ⊢
    exact h.idle a ha
  · by_cases hab : a = b
    · rw [hab, hself.2.1]
      omega
    · rw [hother a hab] at ha ⊢
      exact h.minDebt a ha
  · have hsum := Ledger.sum_replace (f := fun x => (trove s x).stake) (g := fun x => (trove s' x).stake) (a := b)
      fun x hx => by rw [hother x hx]
    have htotal := h.totalStakes
    have hnewTotal : s'.troveManager.totalStakes = s.troveManager.totalStakes - (trove s b).stake + stake := by
      rw [htm]
      rfl
    simp only [hself.2.2] at hsum
    omega

theorem Owners.created {coll debt NICR : ℕ} (h : Owners s) (hnew : (trove s b).status ≠ .active)
    (hbound : s.troveManager.TroveOwners.length < 2 ^ 128) (hc : Created s s' b coll debt NICR) : Owners s' := by
  obtain ⟨stake, -, hle, htm⟩ := hc.stake
  have hself : (trove s' b).status = .active ∧ (trove s' b).arrayIndex = s.troveManager.TroveOwners.length := by
    rw [trove, htm, createdManager_self]
    exact ⟨rfl, Nat.mod_eq_of_lt hbound⟩
  have hother : ∀ a, a ≠ b → trove s' a = trove s a := fun a ha => by rw [trove, htm, createdManager_other _ _ _ _ ha, trove]
  have howner : b ∉ s.troveManager.TroveOwners := fun hb => hnew ((h.mem b).1 hb)
  have hne : ∀ a ∈ s.troveManager.TroveOwners, a ≠ b := fun a ha e => howner (e ▸ ha)
  refine ⟨?_, fun a => ?_⟩
  · rw [htm]
    exact h.roster.push howner hself.2 fun a ha => by rw [hother a (hne a ha)]
  · rw [htm]
    simp only [createdManager, List.mem_append, List.mem_singleton, h.mem a]
    by_cases hab : a = b
    · simp [hab, hself.1]
    · simp [hab, hother a hab]

/-- the record of a trove that was closed -/
theorem closedManager_self (tm : TroveManager) (b : Address) (status : Status) :
    ∃ i, (closedManager tm b status).Troves b = ⟨0, 0, 0, status, i⟩ := by
  dsimp only [closedManager]
  by_cases hlast : b = tm.TroveOwners.getD (tm.TroveOwners.length - 1) 0
  · rw [← hlast, Function.update_self, Function.update_self]
    exact ⟨_, rfl⟩
  · rw [Function.update_of_ne hlast, Function.update_self]
    exact ⟨_, rfl⟩

theorem closedManager_arrayIndex (tm : TroveManager) (b : Address) (status : Status) (ha : a ≠ b) :
    ((closedManager tm b status).Troves a).arrayIndex =
      if a = tm.TroveOwners.getD (tm.TroveOwners.length - 1) 0 then (tm.Troves b).arrayIndex
      else (tm.Troves a).arrayIndex := by
  dsimp only [closedManager]
  split_ifs with hlast
  · rw [← hlast, Function.update_self]
  · rw [Function.update_of_ne hlast, Function.update_of_ne ha]

/-- what closing trove `b` leaves in the records -/
theorem Closed.troves {status : Status} (h : Closed s s' b status) :
    (∃ i, trove s' b = ⟨0, 0, 0, status, i⟩) ∧ (∀ a, a ≠ b → ∃ i, trove s' a = { trove s a with arrayIndex := i }) ∧
      ∀ a, (trove s' a).status = .active ↔ (trove s a).status = .active ∧ a ≠ b := by
  have hself : ∃ i, trove s' b = ⟨0, 0, 0, status, i⟩ := by
    rw [trove, h.troveManager]
    exact closedManager_self s.troveManager b status
  have hother : ∀ a, a ≠ b → ∃ i, trove s' a = { trove s a with arrayIndex := i } := by
    intro a ha
    rw [trove, h.troveManager]
    exact closedManager_Troves s.troveManager b status ha
  refine ⟨hself, hother, fun a => ?_⟩
  by_cases hab : a = b
  · obtain ⟨i, hi⟩ := hself
    simp [hab, hi, h.closedStatus.2]
  · obtain ⟨j, hj⟩ := hother a hab
    simp [hj, hab]

theorem Registry.closed {status : Status} (h : Registry s) (hc : Closed s s' b status) : Registry s' := by
  obtain ⟨ids, hchain, hids⟩ := h.list
  obtain ⟨xs, ys, rfl, hchain'⟩ := SortedTroves.remove_chain hchain hc.list
  obtain ⟨⟨i, hself⟩, hother, hstatus⟩ := hc.troves
  refine ⟨⟨_, hchain', fun a => ?_⟩, fun a ha => ?_, fun a ha => ?_, ?_⟩
  · rw [hstatus, ← hids a, hchain.mem_remove]
  · by_cases hab : a = b
    · rw [hab, hself]
      exact ⟨rfl, rfl, rfl⟩
    · obtain ⟨j, hj⟩ := hother a hab
      rw [hj] at ha ⊢
      exact h.idle a ha
  · obtain ⟨ha', hab⟩ := (hstatus a).1 ha
    obtain ⟨j, hj⟩ := hother a hab
    rw [hj]
    exact h.minDebt a ha'
  · have hsum := Ledger.sum_replace (f := fun x => (trove s x).stake) (g := fun x => (trove s' x).stake) (a := b)
      fun x hx => by
        obtain ⟨j, hj⟩ := hother x hx
        rw [hj]
    have htotal := h.totalStakes
    have hle := hc.stake_le
    have hnewTotal : s'.troveManager.totalStakes = s.troveManager.totalStakes - (trove s b).stake := by
      rw [hc.troveManager]
      rfl
    simp only [hself] at hsum
    omega

theorem Owners.closed {status : Status} (h : Owners s) (hactive : (trove s b).status = .active)
    (hc : Closed s s' b status) : Owners s' := by
  obtain ⟨-, -, hstatus⟩ := hc.troves
  have hindex : ∀ a, a ≠ b → (trove s' a).arrayIndex =
      if a = s.troveManager.TroveOwners.getD (s.troveManager.TroveOwners.length - 1) 0 then (trove s b).arrayIndex
      else (trove s a).arrayIndex := by
    intro a ha
    rw [trove, hc.troveManager]
    exact closedManager_arrayIndex s.troveManager b status ha
  obtain ⟨hroster, hmem⟩ := h.roster.swapRemove ((h.mem b).2 hactive) hindex
  have howners : s'.troveManager.TroveOwners =
      SimContracts.swapRemove 0 s.troveManager.TroveOwners (trove s b).arrayIndex := by
    rw [hc.troveManager]
    rfl
  exact ⟨howners ▸ hroster, fun a => by rw [howners, hmem a, hstatus a, h.mem a]⟩

/-- only an active trove has a node to remove -/
theorem Registry.active_of_closed {status : Status} (h : Registry s) (hc : Closed s s' b status) :
    (trove s b).status = .active := by
  obtain ⟨ids, hchain, hids⟩ := h.list
  obtain ⟨xs, ys, rfl, -⟩ := SortedTroves.remove_chain hchain hc.list
  exact (hids b).1 (by simp)

/-- only an active trove has a node to move -/
theorem Registry.active_of_edited {coll debt : ℕ} (h : Registry s) (he : Edited s s' b coll debt) :
    (trove s b).status = .active := by
  obtain ⟨nicr, NICR, p, n, -, -, hre⟩ := he.list
  obtain ⟨ids, hchain, hids⟩ := h.list
  obtain ⟨xs, ys, p', n', us, vs, rfl, -⟩ := SortedTroves.reInsert_chain hchain hre
  exact (hids b).1 (by simp)

/-- every kind of move keeps the records in agreement -/
theorem move_registry {plan : Plan} (h : Registry s) (hm : Move c s₀ plan s s') : Registry s' := by
  cases hm with
  | frame hf => exact h.frame hf
  | settle b pw pd hhas hpw hpd hmoved =>
    obtain ⟨t, -, rfl⟩ := hmoved.state
    have hactive : (trove s b).status = .active := by
      simp only [hasPendingRewards, decide_eq_true_eq] at hhas
      exact hhas.1
    have hle : (trove s b).stake ≤ s.troveManager.totalStakes :=
      h.totalStakes ▸ Ledger.le_sum (fun a => (trove s a).stake) b
    refine h.write (b := b) (t := _) hactive ?_ ?_ rfl hle ?_ h.list
    · exact hactive
    · exact (h.minDebt b hactive).trans (Nat.le_add_right _ _)
    · exact (Nat.sub_add_cancel hle).symm
  | edit b coll debt hplan harrived hdebt he => exact h.edited hdebt he
  | create b coll debt NICR hplan hstart hnew hdebt hNICR hc => exact h.created hnew hdebt hc
  | close b status hc => exact h.closed hc
  | liquidate b t ht hmoved hc =>
    obtain ⟨htm, hlist⟩ := hmoved.same
    exact (h.congr (by rw [htm]) (by rw [htm]) hlist).closed hc
  | redistribute coll hpos hred =>
    obtain ⟨rw, ew, rd, ed, u, -, -, -, rfl⟩ := hred.state
    exact h.congr rfl rfl rfl
  | snapshot coll hopen hs =>
    obtain ⟨-, rfl⟩ := updateSystemSnapshots_ok hs
    exact h.congr rfl rfl rfl

theorem move_owners {plan : Plan} (hbound : s₀.troveManager.TroveOwners.length < 2 ^ 128)
    (h : Registry s ∧ Owners s) (hm : Move c s₀ plan s s') : Registry s' ∧ Owners s' := by
  obtain ⟨hreg, h⟩ := h
  refine ⟨move_registry hreg hm, ?_⟩
  cases hm with
  | frame hf =>
    obtain ⟨r, t, ht⟩ := hf.troveManager
    exact h.of_eq (by rw [ht]) (by rw [ht])
  | settle b pw pd hhas hpw hpd hmoved =>
    obtain ⟨t, -, rfl⟩ := hmoved.state
    refine h.congr rfl fun a => ?_
    by_cases ha : a = b
    · simp [trove, settledManager, ha]
    · simp [trove, settledManager, ha]
  | edit b coll debt hplan harrived hdebt he => exact h.edited he
  | create b coll debt NICR hplan hstart hnew hdebt hNICR hc =>
    refine h.created hnew ?_ hc
    obtain ⟨r, t, ht⟩ := hstart.troveManager
    rw [ht]
    exact hbound
  | close b status hc => exact h.closed (hreg.active_of_closed hc) hc
  | liquidate b t ht hmoved hc =>
    obtain ⟨htm, hlist⟩ := hmoved.same
    have hactive := (hreg.congr (by rw [htm]) (by rw [htm]) hlist).active_of_closed hc
    exact (h.of_eq (by rw [htm]) (by rw [htm])).closed hactive hc
  | redistribute coll hpos hred =>
    obtain ⟨rw, ew, rd, ed, u, -, -, -, rfl⟩ := hred.state
    exact h.of_eq rfl rfl
  | snapshot coll hopen hs =>
    obtain ⟨-, rfl⟩ := updateSystemSnapshots_ok hs
    exact h.of_eq rfl rfl

/-! ## Runs -/

/-- a transaction adds at most one owner -/
theorem move_length {plan : Plan}
    (h : s.troveManager.TroveOwners.length ≤ s₀.troveManager.TroveOwners.length + 1) (hm : Move c s₀ plan s s') :
    s'.troveManager.TroveOwners.length ≤ s₀.troveManager.TroveOwners.length + 1 := by
  cases hm with
  | frame hf =>
    obtain ⟨r, t, ht⟩ := hf.troveManager
    rw [ht]
    exact h
  | settle b pw pd hhas hpw hpd hmoved =>
    obtain ⟨t, -, rfl⟩ := hmoved.state
    exact h
  | edit b coll debt hplan harrived hdebt he =>
    obtain ⟨stake, -, -, htm⟩ := he.stake
    rw [htm]
    exact h
  | create b coll debt NICR hplan hstart hnew hdebt hNICR hc =>
    obtain ⟨stake, -, -, htm⟩ := hc.stake
    obtain ⟨r, t, ht⟩ := hstart.troveManager
    rw [htm, ht]
    simp [createdManager]
  | close b status hc =>
    rw [hc.troveManager]
    simp only [closedManager, List.length_dropLast, List.length_set]
    omega
  | liquidate b t ht hmoved hc =>
    obtain ⟨u, -, rfl⟩ := hmoved.state
    rw [hc.troveManager]
    simp only [closedManager, List.length_dropLast, List.length_set]
    omega
  | redistribute coll hpos hred =>
    obtain ⟨rw, ew, rd, ed, u, -, -, -, rfl⟩ := hred.state
    exact h
  | snapshot coll hopen hs =>
    obtain ⟨-, rfl⟩ := updateSystemSnapshots_ok hs
    exact h

/-- the state after any calls, on the protocol as it is deployed -/
abbrev reached (c : Config) (calls : List (Tx c)) : System := run (exec c) (init c) calls

/-- an invariant beside the registry that every kind of move keeps -/
theorem Moves.keepsRegistry {plan : Plan} {I : System → Prop} {s₀ : System}
    (hmove : ∀ t t', Registry t → I t → Move c s₀ plan t t' → I t') (h : Moves c s₀ plan s s')
    (hI : Registry s ∧ I s) : Registry s' ∧ I s' := by
  refine h.keeps (I := fun t => Registry t ∧ I t) ?_ hI
  intro t t' ht hm
  exact ⟨move_registry ht.1 hm, hmove t t' ht.1 ht.2 hm⟩

theorem exec_keeps {I : System → Prop} {tx : Tx c} (hmove : ∀ t t', Registry t → I t → Move c s (plan c s tx) t t' → I t')
    (h : Registry s ∧ I s) (hexec : exec c s tx = .ok s') : Registry s' ∧ I s' := by
  obtain ⟨ids, hchain, -⟩ := h.1.list
  exact (exec_moves hchain hexec).keepsRegistry hmove h

theorem exec_registry {tx : Tx c} (h : Registry s) (hexec : exec c s tx = .ok s') : Registry s' := by
  obtain ⟨ids, hchain, -⟩ := h.list
  exact (exec_moves hchain hexec).keeps (fun _ _ => move_registry) h

theorem reached_registry (calls : List (Tx c)) : Registry (reached c calls) := by
  refine run_inv (exec c) (P := fun _ _ => True) (fun s tx s' h _ => exec_registry h) _ calls (init_registry c) ?_
  exact along_true (exec c) _ calls

theorem exec_owners {tx : Tx c} (h : Registry s ∧ Owners s) (hbound : s.troveManager.TroveOwners.length < 2 ^ 128)
    (hexec : exec c s tx = .ok s') :
    Owners s' ∧ s'.troveManager.TroveOwners.length ≤ s.troveManager.TroveOwners.length + 1 := by
  obtain ⟨ids, hchain, -⟩ := h.1.list
  have hmoves := exec_moves hchain hexec
  exact ⟨(hmoves.keeps (fun _ _ => move_owners hbound) h).2, hmoves.keeps (fun _ _ => move_length) (Nat.le_succ _)⟩

theorem reached_owners (calls : List (Tx c)) (hlen : calls.length ≤ 2 ^ 128) :
    Owners (reached c calls) ∧ (reached c calls).troveManager.TroveOwners.length ≤ calls.length := by
  induction calls using List.reverseRecOn with
  | nil => exact ⟨init_owners c, le_rfl⟩
  | append_singleton calls tx ih =>
    rw [List.length_append, List.length_singleton] at hlen ⊢
    obtain ⟨howners, hle⟩ := ih (by omega)
    rw [reached, run_snoc]
    cases hexec : exec c (reached c calls) tx with
    | error e => exact ⟨howners, hle.trans (Nat.le_succ _)⟩
    | ok s' =>
      obtain ⟨howners', hle'⟩ := exec_owners ⟨reached_registry calls, howners⟩ (by omega) hexec
      exact ⟨howners', by simp only [commit]; omega⟩

/-! ## The records agree -/

/-- both lists of the active troves have the same length -/
theorem Registry.length_eq (h : Registry s) (ho : Owners s) :
    s.troveManager.TroveOwners.length = SortedTroves.getSize s.sortedTroves := by
  obtain ⟨ids, hchain, hids⟩ := h.list
  rw [SortedTroves.getSize, hchain.size]
  refine List.Perm.length_eq ((List.perm_ext_iff_of_nodup ho.roster.nodup hchain.nodup).2 fun a => ?_)
  rw [ho.mem a, hids a]

/-- a sum over all addresses is one over the active troves, where the others have nothing -/
theorem sum_active (f : Trove → ℕ) (hf : ∀ a, (trove s a).status ≠ .active → f (trove s a) = 0) :
    ∑ a, f (trove s a) = ∑ a with (trove s a).status = .active, f (trove s a) := by
  rw [Finset.sum_filter]
  refine Finset.sum_congr rfl fun a _ => ?_
  split_ifs with ha
  · rfl
  · exact hf a ha

/-- **The four records of which troves exist agree** after any calls: status, owners and nodes are the same set without
repetition, every index is right, nothing is left of a closed trove, and the stakes add up. -/
theorem records_agree (c : Config) (calls : List (Tx c)) (hlen : calls.length ≤ 2 ^ 128) :
    let s := reached c calls
    s.troveManager.TroveOwners.Nodup ∧
      (∃ ids, SortedTroves.IsChain s.sortedTroves ids ∧ ids.Nodup ∧ ∀ a, a ∈ ids ↔ (trove s a).status = .active) ∧
      (∀ a, (trove s a).status = .active ↔ a ∈ s.troveManager.TroveOwners) ∧
      (∀ a, (trove s a).status = .active ↔ SortedTroves.contains s.sortedTroves a = true) ∧
      (∀ a, (trove s a).status = .active → s.troveManager.TroveOwners[(trove s a).arrayIndex]? = some a) ∧
      s.troveManager.TroveOwners.length = SortedTroves.getSize s.sortedTroves ∧
      (∀ a, (trove s a).status ≠ .active → (trove s a).coll = 0 ∧ (trove s a).debt = 0 ∧ (trove s a).stake = 0) ∧
      (∀ a, (trove s a).status = .active → MIN_NET_DEBT ≤ (trove s a).debt) ∧
      s.troveManager.totalStakes = ∑ a with (trove s a).status = .active, (trove s a).stake := by
  intro s
  have h := reached_registry calls
  obtain ⟨ho, -⟩ := reached_owners calls hlen
  obtain ⟨ids, hchain, hids⟩ := h.list
  refine ⟨ho.roster.nodup, ⟨ids, hchain, hchain.nodup, hids⟩, fun a => (ho.mem a).symm, fun a => ?_, fun a ha => ?_,
    h.length_eq ho, h.idle, h.minDebt, ?_⟩
  · rw [hchain.contains_iff, hids]
  · exact ho.roster.index a ((ho.mem a).2 ha)
  · rw [h.totalStakes]
    exact sum_active (·.stake) fun a ha => (h.idle a ha).2.2

/-! ### Two troves -/

def exampleConfig : Config where
  simToken := 101
  activePool := 102
  defaultPool := 103
  stabilityPool := 104
  collSurplusPool := 105
  troveManager := 106
  borrowerOperations := 107
  simVeDistributor := 108
  wstETHVeDistributor := 109
  feeReceiver := 110
  maxSize := uintMax
  distinct := by decide
  simVeDistributor_outside := by decide
  wstETHVeDistributor_outside := by decide
  feeReceiver_outside := by decide

def alice : Account exampleConfig := ⟨1, by decide⟩
def bob : Account exampleConfig := ⟨2, by decide⟩
def carol : Account exampleConfig := ⟨3, by decide⟩
def dave : Account exampleConfig := ⟨4, by decide⟩

/-- a call at a price, after the bootstrap period -/
def atPrice (price : ℕ) (sender : Account exampleConfig) (call : Call) : Tx exampleConfig :=
  ⟨⟨BOOTSTRAP_PERIOD, .ok price, .ok 0, .ok (), .ok (), 0⟩, sender, call⟩

/-- an account gets collateral and lets `BorrowerOperations` take it -/
def funded (sender : Account exampleConfig) : List (Tx exampleConfig) :=
  [atPrice 0 sender (.mintWSTETH (10 ^ 30)), atPrice 0 sender (.approveWSTETH exampleConfig.borrowerOperations uintMax)]

/-- Bob opens a trove with 100 wstETH and 1000 SIM, Alice one with 0.001 wstETH and 1 SIM, at a price of 2000 -/
def twoTroves : List (Tx exampleConfig) :=
  funded alice ++ funded bob ++
    [atPrice (2000 * 10 ^ 18) bob (.openTrove (100 * 10 ^ 18) (10 ^ 18) (1000 * 10 ^ 18) 0 0),
      atPrice (2000 * 10 ^ 18) alice (.openTrove (10 ^ 15) (10 ^ 18) (10 ^ 18) 0 0)]

theorem records_agree_twoTroves :
    (reached exampleConfig twoTroves).troveManager.TroveOwners = [2, 1] ∧
      (∀ a, (trove (reached exampleConfig twoTroves) a).status = .active ↔
        a ∈ (reached exampleConfig twoTroves).troveManager.TroveOwners) :=
  ⟨by decide +kernel, (records_agree exampleConfig twoTroves (by decide)).2.2.1⟩

end SimContracts.Protocol
