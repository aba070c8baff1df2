/-
What front ends read: the pages of `MultiTroveGetter` and the search for a hint of `HintHelpers`
(`contracts/MultiTroveGetter.sol`, `contracts/HintHelpers.sol`).

A page walks the list from one of its ends; an index below zero counts from the tail. `getApproxHint` probes owners at random,
where the hash that makes the next seed is a parameter (`keccak256`), and keeps the closest one.

Results:
  pages_list        the pages are the slices of the list, and together they hold every trove once
  approxHint_best   the hint is a trove, and none of the probes is closer
-/
import SimContracts.Protocol.Registry

namespace SimContracts.Protocol

open Solidity TroveManager

variable {c : Config} {s : System} {a : Address} {ids xs : List Address} {step : Address → Address} {k n : ℕ}

/-! ## MultiTroveGetter -/

namespace MultiTroveGetter

structure CombinedTroveData where
  owner : Address
  debt : ℕ
  coll : ℕ
  stake : ℕ
  snapshotETH : ℕ
  snapshotLUSDDebt : ℕ
deriving DecidableEq

/-- the row of one trove -/
def combinedTroveData (s : System) (owner : Address) : CombinedTroveData :=
  { owner, debt := (trove s owner).debt, coll := (trove s owner).coll, stake := (trove s owner).stake
    snapshotETH := (s.troveManager.rewardSnapshots owner).WSTETH
    snapshotLUSDDebt := (s.troveManager.rewardSnapshots owner).SIMDebt }

/-- the second loop of both directions -/
def collectTroves (s : System) (step : Address → Address) : ℕ → Address → List CombinedTroveData
  | 0, _ => []
  | n + 1, currentTroveowner => combinedTroveData s currentTroveowner :: collectTroves s step n (step currentTroveowner)

def getMultipleSortedTrovesFromHead (s : System) (startIdx count : ℕ) : List CombinedTroveData :=
  let next := SortedTroves.getNext s.sortedTroves
  collectTroves s next count (next^[startIdx] (SortedTroves.getFirst s.sortedTroves))

def getMultipleSortedTrovesFromTail (s : System) (startIdx count : ℕ) : List CombinedTroveData :=
  let prev := SortedTroves.getPrev s.sortedTroves
  collectTroves s prev count (prev^[startIdx] (SortedTroves.getLast s.sortedTroves))

def getMultipleSortedTroves (s : System) (startIdx : ℤ) (count : ℕ) : List CombinedTroveData :=
  let descend : Bool := 0 ≤ startIdx
  let index : ℕ := if descend then startIdx.toNat else (-(startIdx + 1)).toNat
  let sortedTrovesSize := SortedTroves.getSize s.sortedTroves
  if sortedTrovesSize ≤ index then []
  else
    let count := min count (sortedTrovesSize - index)
    if descend then getMultipleSortedTrovesFromHead s index count else getMultipleSortedTrovesFromTail s index count

/-- each node leads to the next, and the last one to none -/
def Visits (step : Address → Address) : List Address → Prop
  | [] => True
  | a :: xs => step a = xs.headD 0 ∧ Visits step xs

theorem visits_next (us : List Address) (hc : SortedTroves.IsChain s.sortedTroves (us ++ xs)) :
    Visits (SortedTroves.getNext s.sortedTroves) xs := by
  induction xs generalizing us with
  | nil => trivial
  | cons a xs ih =>
    refine ⟨hc.getNext_eq, ih (us ++ [a]) ?_⟩
    rw [← List.append_cons]
    exact hc

theorem visits_prev (us : List Address) (hc : SortedTroves.IsChain s.sortedTroves (xs ++ us)) :
    Visits (SortedTroves.getPrev s.sortedTroves) xs.reverse := by
  induction xs using List.reverseRecOn generalizing us with
  | nil => trivial
  | append_singleton xs a ih =>
    rw [List.append_assoc, List.singleton_append] at hc
    rw [List.reverse_append, List.reverse_singleton, List.singleton_append]
    exact ⟨by rw [hc.getPrev_eq, List.headD_eq_head?_getD, List.head?_reverse, List.getLastD_eq_getLast?], ih _ hc⟩

theorem Visits.drop (h : Visits step xs) (k : ℕ) : Visits step (xs.drop k) := by
  induction k generalizing xs with
  | zero => exact h
  | succ k ih =>
    cases xs with
    | nil => trivial
    | cons a xs => exact ih h.2

theorem Visits.iterate (h : Visits step xs) (hk : k < xs.length) : step^[k] (xs.headD 0) = (xs.drop k).headD 0 := by
  induction k generalizing xs with
  | zero => rfl
  | succ k ih =>
    cases xs with
    | nil => exact absurd hk (Nat.not_lt_zero _)
    | cons a xs =>
      rw [Function.iterate_succ_apply, List.headD_cons, h.1, List.drop_succ_cons]
      exact ih h.2 (Nat.lt_of_succ_lt_succ hk)

theorem Visits.collect (h : Visits step xs) (hn : n ≤ xs.length) :
    collectTroves s step n (xs.headD 0) = (xs.take n).map (combinedTroveData s) := by
  induction n generalizing xs with
  | zero => rfl
  | succ n ih =>
    cases xs with
    | nil => exact absurd hn (Nat.not_succ_le_zero _)
    | cons a xs =>
      rw [collectTroves, List.headD_cons, h.1, ih h.2 (Nat.le_of_succ_le_succ hn)]
      rfl

/-- a page from the end that the walk starts at -/
theorem Visits.page (h : Visits step xs) (hk : k < xs.length) (hn : n ≤ xs.length - k) :
    collectTroves s step n (step^[k] (xs.headD 0)) = ((xs.drop k).take n).map (combinedTroveData s) := by
  rw [h.iterate hk]
  exact (h.drop k).collect (by rw [List.length_drop]; exact hn)

theorem page_take (xs : List Address) (k n : ℕ) : (xs.drop k).take (min n (xs.length - k)) = (xs.drop k).take n := by
  rw [← List.length_drop, ← List.take_eq_take_min]

/-- an index from 0 counts from the head -/
theorem getMultipleSortedTroves_head (hc : SortedTroves.IsChain s.sortedTroves ids) (k n : ℕ) :
    getMultipleSortedTroves s k n = ((ids.drop k).take n).map (combinedTroveData s) := by
  have hvisits : Visits (SortedTroves.getNext s.sortedTroves) ids := visits_next [] hc
  have hdescend : (0 : ℤ) ≤ k := Int.natCast_nonneg k
  simp only [getMultipleSortedTroves, hdescend, decide_true, if_true, Int.toNat_natCast, SortedTroves.getSize, hc.size]
  split_ifs with hend
  · rw [List.drop_eq_nil_of_le hend, List.take_nil, List.map_nil]
  · rw [getMultipleSortedTrovesFromHead, SortedTroves.getFirst, hc.head,
      hvisits.page (Nat.not_le.1 hend) (min_le_right _ _), page_take]

/-- an index below 0 counts from the tail -/
theorem getMultipleSortedTroves_tail (hc : SortedTroves.IsChain s.sortedTroves ids) (k n : ℕ) :
    getMultipleSortedTroves s (-(k + 1 : ℤ)) n = ((ids.reverse.drop k).take n).map (combinedTroveData s) := by
  have hvisits : Visits (SortedTroves.getPrev s.sortedTroves) ids.reverse :=
    visits_prev [] (by rw [List.append_nil]; exact hc)
  have hdescend : ¬ (0 : ℤ) ≤ -(k + 1 : ℤ) := by omega
  have hindex : (-(-(k + 1 : ℤ) + 1)).toNat = k := by omega
  have hlast : ids.getLastD 0 = ids.reverse.headD 0 := by
    rw [List.headD_eq_head?_getD, List.head?_reverse, List.getLastD_eq_getLast?]
  simp only [getMultipleSortedTroves, hdescend, decide_false, Bool.false_eq_true, if_false, hindex, SortedTroves.getSize,
    hc.size]
  split_ifs with hend
  · rw [List.drop_eq_nil_of_le (by rw [List.length_reverse]; exact hend), List.take_nil, List.map_nil]
  · rw [← ids.length_reverse] at hend ⊢
    rw [getMultipleSortedTrovesFromTail, SortedTroves.getLast, hc.tail, hlast,
      hvisits.page (Nat.not_le.1 hend) (min_le_right _ _), page_take]

/-- slices of one width, one after the other -/
theorem flatMap_slices {α : Type} (xs : List α) (width pages : ℕ) :
    (List.range pages).flatMap (fun i => (xs.drop (i * width)).take width) = xs.take (pages * width) := by
  induction pages with
  | zero => simp
  | succ pages ih => rw [List.range_succ, List.flatMap_append, ih, Nat.succ_mul, List.take_add, List.flatMap_singleton]

/-- **The pages are the list.** In every reachable state the sorted list, in the order of its links, holds each active trove
once; a page from the head is a slice of it, a page from the tail a slice of it backwards; pages of one width, enough of them,
hold the row of every active trove exactly once. -/
theorem pages_list (c : Config) (calls : List (Tx c)) :
    let s := reached c calls
    ∃ ids : List Address, SortedTroves.IsChain s.sortedTroves ids ∧ ids.Nodup ∧
      (∀ a, a ∈ ids ↔ (trove s a).status = .active) ∧
      (∀ k n : ℕ, getMultipleSortedTroves s k n = ((ids.drop k).take n).map (combinedTroveData s)) ∧
      (∀ k n : ℕ, getMultipleSortedTroves s (-(k + 1 : ℤ)) n = ((ids.reverse.drop k).take n).map (combinedTroveData s)) ∧
      ∀ width pages : ℕ, ids.length ≤ pages * width →
        (List.range pages).flatMap (fun i => getMultipleSortedTroves s (i * width : ℕ) width) =
          ids.map (combinedTroveData s) := by
  intro s
  obtain ⟨ids, hc, hids⟩ := (reached_registry calls).list
  refine ⟨ids, hc, hc.nodup, hids, getMultipleSortedTroves_head hc, getMultipleSortedTroves_tail hc, fun width pages hlen => ?_⟩
  have hpage : (fun i : ℕ => getMultipleSortedTroves s (i * width : ℕ) width) =
      fun i => ((ids.drop (i * width)).take width).map (combinedTroveData s) :=
    funext fun i => getMultipleSortedTroves_head hc _ _
  rw [hpage, ← List.map_flatMap, flatMap_slices, List.take_of_length_le hlen]

end MultiTroveGetter

/-! ## Approximate hints -/

namespace HintHelpers

variable {hash : ℕ → ℕ} {CR arrayLength trials diff seed diff' seed' : ℕ} {hint hint' : Address}

/-- `LiquityMath._getAbsoluteDifference` -/
def getAbsoluteDifference (x y : ℕ) : ℕ := if y ≤ x then x - y else y - x

/-- the loop of `getApproxHint`, with the number of trials left -/
def approxHintLoop (hash : ℕ → ℕ) (s : System) (CR arrayLength : ℕ) : ℕ → Address → ℕ → ℕ → Res (Address × ℕ × ℕ)
  | 0, hintAddress, diff, latestRandomSeed => .ok (hintAddress, diff, latestRandomSeed)
  | trials + 1, hintAddress, diff, latestRandomSeed => do
    let latestRandomSeed := hash latestRandomSeed
    let arrayIndex := latestRandomSeed % arrayLength
    inBounds arrayIndex s.troveManager.TroveOwners.length
    let currentAddress := s.troveManager.TroveOwners.getD arrayIndex 0
    let currentNICR ← getNominalICR s currentAddress
    -- check if abs(current - CR) > abs(closest - CR), and update closest if current is closer
    let currentDiff := getAbsoluteDifference currentNICR CR
    if currentDiff < diff then approxHintLoop hash s CR arrayLength trials currentAddress currentDiff latestRandomSeed
    else approxHintLoop hash s CR arrayLength trials hintAddress diff latestRandomSeed

def getApproxHint (hash : ℕ → ℕ) (s : System) (CR numTrials inputRandomSeed : ℕ) : Res (Address × ℕ × ℕ) :=
  let arrayLength := s.troveManager.TroveOwners.length
  if arrayLength = 0 then .ok (0, 0, inputRandomSeed)
  else do
    let hintAddress := SortedTroves.getLast s.sortedTroves
    let diff := getAbsoluteDifference CR (← getNominalICR s hintAddress)
    approxHintLoop hash s CR arrayLength (numTrials - 1) hintAddress diff inputRandomSeed

/-- the owner that the `i`-th seed after `seed` points at -/
def probe (hash : ℕ → ℕ) (s : System) (seed i : ℕ) : Address :=
  s.troveManager.TroveOwners.getD (hash^[i] seed % s.troveManager.TroveOwners.length) 0

/-- a hint at its distance from the ratio -/
def AtDistance (s : System) (CR : ℕ) (hint : Address) (diff : ℕ) : Prop :=
  ∃ NICR, getNominalICR s hint = .ok NICR ∧ diff = getAbsoluteDifference NICR CR

theorem getAbsoluteDifference_comm (x y : ℕ) : getAbsoluteDifference x y = getAbsoluteDifference y x := by
  unfold getAbsoluteDifference
  split_ifs <;> omega

/-- the closest of the hint that the loop starts with and the owners it probes -/
structure Closest (hash : ℕ → ℕ) (s : System) (CR trials : ℕ) (hint : Address) (seed : ℕ) (best : Address) (diff : ℕ) : Prop where
  distance : AtDistance s CR best diff
  found : best = hint ∨ ∃ i < trials, best = probe hash s seed (i + 1)
  hint_le : ∀ d, AtDistance s CR hint d → diff ≤ d
  probes_le : ∀ i < trials, ∃ d, AtDistance s CR (probe hash s seed (i + 1)) d ∧ diff ≤ d

theorem AtDistance.unique {x y : ℕ} (h : AtDistance s CR hint x) (h' : AtDistance s CR hint y) : x = y := by
  obtain ⟨u, hu, rfl⟩ := h
  obtain ⟨w, hw, rfl⟩ := h'
  rw [hu] at hw
  cases hw
  rfl

theorem approxHintLoop_closest (hd : AtDistance s CR hint diff)
    (h : approxHintLoop hash s CR s.troveManager.TroveOwners.length trials hint diff seed = .ok (hint', diff', seed')) :
    Closest hash s CR trials hint seed hint' diff' ∧ seed' = hash^[trials] seed := by
  induction trials generalizing hint diff seed with
  | zero =>
    cases h
    exact ⟨⟨hd, .inl rfl, fun d hd' => (hd.unique hd').le, nofun⟩, rfl⟩
  | succ trials ih =>
    unfold approxHintLoop at h
    simp only [inBounds_bind] at h
    obtain ⟨-, h⟩ := h
    obtain ⟨NICR, hNICR, h⟩ := bind_ok.1 h
    have hcurrent : AtDistance s CR (probe hash s seed 1) (getAbsoluteDifference NICR CR) := ⟨NICR, hNICR, rfl⟩
    have hprobe : ∀ i, probe hash s (hash seed) i = probe hash s seed (i + 1) := fun i => by
      rw [probe, probe, Function.iterate_succ_apply]
    split_ifs at h with hcloser
    · obtain ⟨⟨hdist, hfound, hhint, hprobes⟩, hseed⟩ := ih hcurrent h
      have hle := hhint _ hcurrent
      refine ⟨⟨hdist, .inr ?_, fun d hd' => ?_, fun i hi => ?_⟩, by rw [hseed, Function.iterate_succ_apply]⟩
      · rcases hfound with rfl | ⟨i, hi, rfl⟩
        · exact ⟨0, Nat.succ_pos _, rfl⟩
        · exact ⟨i + 1, Nat.succ_lt_succ hi, hprobe _⟩
      · rw [← hd.unique hd']
        exact hle.trans hcloser.le
      · cases i with
        | zero => exact ⟨_, hcurrent, hle⟩
        | succ i =>
          rw [← hprobe]
          exact hprobes i (Nat.lt_of_succ_lt_succ hi)
    · obtain ⟨⟨hdist, hfound, hhint, hprobes⟩, hseed⟩ := ih hd h
      have hle := hhint _ hd
      refine ⟨⟨hdist, hfound.imp_right ?_, hhint, fun i hi => ?_⟩, by rw [hseed, Function.iterate_succ_apply]⟩
      · rintro ⟨i, hi, rfl⟩
        exact ⟨i + 1, Nat.succ_lt_succ hi, hprobe _⟩
      · cases i with
        | zero => exact ⟨_, hcurrent, hle.trans (Nat.not_lt.1 hcloser)⟩
        | succ i =>
          rw [← hprobe]
          exact hprobes i (Nat.lt_of_succ_lt_succ hi)

theorem getD_mem {xs : List Address} {i : ℕ} (h : i < xs.length) : xs.getD i 0 ∈ xs := by
  rw [List.getD_eq_getElem?_getD, List.getElem?_eq_getElem h]
  exact List.getElem_mem h

/-- the search goes through if no ratio overflows -/
theorem approxHintLoop_succeeds (trials : ℕ) (hint : Address) (diff seed : ℕ) (hpos : 0 < s.troveManager.TroveOwners.length)
    (hNICR : ∀ a ∈ s.troveManager.TroveOwners, Succeeds (getNominalICR s a)) :
    Succeeds (approxHintLoop hash s CR s.troveManager.TroveOwners.length trials hint diff seed) := by
  induction trials generalizing hint diff seed with
  | zero => exact ⟨_, rfl⟩
  | succ trials ih =>
    have hlt := Nat.mod_lt (hash seed) hpos
    have hmem : s.troveManager.TroveOwners.getD (hash seed % s.troveManager.TroveOwners.length) 0 ∈
        s.troveManager.TroveOwners := getD_mem hlt
    unfold approxHintLoop
    refine Succeeds.bind ⟨(), if_pos hlt⟩ fun _ _ => (hNICR _ hmem).bind fun NICR _ => ?_
    dsimp only
    split_ifs
    · exact ih _ _ _
    · exact ih _ _ _

/-- **The hint is the closest trove that was looked at.** In every reachable state with a trove, where the ratios do not
overflow, the search succeeds; its hint is an active trove at the distance returned, the tail of the list or one of the owners
probed, and none of these is closer. -/
theorem approxHint_best (c : Config) (calls : List (Tx c)) (hlen : calls.length ≤ 2 ^ 128) (hash : ℕ → ℕ)
    (CR numTrials seed : ℕ) (hpos : 0 < (reached c calls).troveManager.TroveOwners.length)
    (hNICR : ∀ a, (trove (reached c calls) a).status = .active → Succeeds (getNominalICR (reached c calls) a)) :
    ∃ hint diff, getApproxHint hash (reached c calls) CR numTrials seed = .ok (hint, diff, hash^[numTrials - 1] seed) ∧
      (trove (reached c calls) hint).status = .active ∧
      Closest hash (reached c calls) CR (numTrials - 1) (SortedTroves.getLast (reached c calls).sortedTroves) seed hint diff := by
  have hreg := reached_registry calls
  obtain ⟨ho, -⟩ := reached_owners calls hlen
  obtain ⟨ids, hc, hids⟩ := hreg.list
  generalize reached c calls = s at *
  have hne : ids ≠ [] := by
    rintro rfl
    have hsize := hreg.length_eq ho
    rw [SortedTroves.getSize, hc.size] at hsize
    exact hpos.ne' hsize
  have hlast : (trove s (SortedTroves.getLast s.sortedTroves)).status = .active := by
    rw [← hids, SortedTroves.getLast, hc.tail]
    exact SortedTroves.getLastD_mem fun h => hne ((hc.getLastD_eq_zero (List.append_nil ids).symm).1 h)
  obtain ⟨NICR, hN⟩ := hNICR _ hlast
  obtain ⟨⟨hint, diff, seed'⟩, hloop⟩ : Succeeds (approxHintLoop hash s CR s.troveManager.TroveOwners.length (numTrials - 1)
      (SortedTroves.getLast s.sortedTroves) (getAbsoluteDifference CR NICR) seed) :=
    approxHintLoop_succeeds _ _ _ _ hpos fun a ha => hNICR a ((ho.mem a).1 ha)
  obtain ⟨hclosest, rfl⟩ := approxHintLoop_closest ⟨NICR, hN, getAbsoluteDifference_comm CR NICR⟩ hloop
  refine ⟨hint, diff, ?_, ?_, hclosest⟩
  · simp only [getApproxHint, if_neg hpos.ne', hN, ok_bind]
    exact hloop
  · rcases hclosest.found with rfl | ⟨i, -, rfl⟩
    · exact hlast
    · have hlt := Nat.mod_lt (hash^[i + 1] seed) hpos
      rw [← ho.mem]
      exact getD_mem hlt

/-- one probe: the tail is Alice's trove, and it is the closer one -/
theorem approxHint_best_twoTroves :
    getApproxHint (fun seed => seed + 1) (reached exampleConfig twoTroves) (10 ^ 17) 2 1 = .ok (1, 497512437810946, 2) ∧
      Closest (fun seed => seed + 1) (reached exampleConfig twoTroves) (10 ^ 17) 1 1 1 1 497512437810946 := by
  have howners : (reached exampleConfig twoTroves).troveManager.TroveOwners = [2, 1] := by decide +kernel
  have hlast : SortedTroves.getLast (reached exampleConfig twoTroves).sortedTroves = 1 := by decide +kernel
  have hfound : getApproxHint (fun seed => seed + 1) (reached exampleConfig twoTroves) (10 ^ 17) 2 1 =
      .ok (1, 497512437810946, 2) := by decide +kernel
  obtain ⟨hint, diff, h, -, hclosest⟩ := approxHint_best exampleConfig twoTroves (by decide) (fun seed => seed + 1)
    (10 ^ 17) 2 1 (by rw [howners]; decide) fun a ha => by
      have hmem := ((reached_owners twoTroves (by decide)).1.mem a).2 ha
      rw [howners] at hmem
      simp only [List.mem_cons, List.not_mem_nil, or_false] at hmem
      rcases hmem with rfl | rfl
      · exact Res.failure_none (by decide +kernel)
      · exact Res.failure_none (by decide +kernel)
  rw [hfound] at h
  cases h
  rw [hlast] at hclosest
  exact ⟨hfound, hclosest⟩

end HintHelpers

end SimContracts.Protocol
