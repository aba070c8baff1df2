/-
Where a redemption starts. `redeemCollateral` takes the caller's hint if it is a trove with a ratio of at least MCR whose
next trove, if there is one, is below MCR; else it walks up from the tail past every trove below MCR. On a list that is
ordered by the ratios, the troves below MCR are the end of the list, and both ways find the last trove before them.

Results:
  firstBorrower_eq_firstRedeemable   every hint leads to the trove that the walk finds
-/
import SimContracts.Protocol.Sequences

namespace SimContracts.SortedTroves

/-- an order splits the list at any bound -/
theorem Descending.split {rate : Address → ℕ} {ids : List Address} (h : Descending rate ids) (m : ℕ) :
    ∃ xs ys, ids = xs ++ ys ∧ (∀ x ∈ xs, m ≤ rate x) ∧ ∀ y ∈ ys, rate y < m := by
  induction ids with
  | nil => exact ⟨[], [], rfl, by simp, by simp⟩
  | cons id ids ih =>
    obtain ⟨hid, htail⟩ := List.pairwise_cons.1 h
    by_cases hm : m ≤ rate id
    · obtain ⟨xs, ys, rfl, hxs, hys⟩ := ih htail
      exact ⟨id :: xs, ys, rfl, List.forall_mem_cons.2 ⟨hm, hxs⟩, hys⟩
    · have hlow : rate id < m := Nat.not_le.1 hm
      exact ⟨[], id :: ids, rfl, by simp, List.forall_mem_cons.2 ⟨hlow, fun y hy => (hid y hy).trans_lt hlow⟩⟩

end SimContracts.SortedTroves

namespace SimContracts.Protocol

open Solidity TroveManager
open SortedTroves (IsChain Descending)

variable {s : System} {price : ℕ} {rate : Address → ℕ} {xs ys ids : List Address} {hint : Address}

/-! ## The ratios of the list -/

/-- the ratio a trove shows at a price -/
def shownICR (s : System) (price : ℕ) (a : Address) : ℕ := (getCurrentICR s a price).shown

theorem AtLeast.fst {a b : Address} (h : AtLeast s price a b) : getCurrentICR s a price = .ok (shownICR s price a) := by
  obtain ⟨x, y, hx, -, -⟩ := h
  rw [shownICR, hx]
  rfl

theorem AtLeast.snd {a b : Address} (h : AtLeast s price a b) : getCurrentICR s b price = .ok (shownICR s price b) := by
  obtain ⟨x, y, -, hy, -⟩ := h
  rw [shownICR, hy]
  rfl

theorem AtLeast.shown_le {a b : Address} (h : AtLeast s price a b) : shownICR s price b ≤ shownICR s price a := by
  obtain ⟨x, y, hx, hy, hle⟩ := h
  rw [shownICR, shownICR, hx, hy]
  exact hle

theorem OrderedByICR.descending (hord : OrderedByICR s price) (hc : IsChain s.sortedTroves (xs ++ ys)) :
    Descending (shownICR s price) xs := by
  induction xs using List.reverseRecOn generalizing ys with
  | nil => exact .nil
  | append_singleton us b ih =>
    rw [List.append_assoc, List.singleton_append] at hc
    refine List.pairwise_append.2 ⟨ih hc, List.pairwise_singleton _ _, fun a ha b' hb => ?_⟩
    rw [List.mem_singleton.1 hb]
    exact (hord.above hc a ha).shown_le

/-- every trove of an ordered list has a ratio, unless there is only one -/
theorem OrderedByICR.rated (hord : OrderedByICR s price) (hc : IsChain s.sortedTroves ids) :
    (∀ a ∈ ids, getCurrentICR s a price = .ok (shownICR s price a)) ∨
      ∃ a e, ids = [a] ∧ getCurrentICR s a price = .error e := by
  by_cases hmany : ids.length = 1
  · obtain ⟨a, rfl⟩ := List.length_eq_one_iff.1 hmany
    cases hICR : getCurrentICR s a price with
    | ok ICR =>
      left
      intro b hb
      rw [List.mem_singleton.1 hb, shownICR, hICR]
      rfl
    | error e => exact .inr ⟨a, e, rfl, hICR⟩
  left
  intro a ha
  obtain ⟨us, vs, rfl⟩ := List.append_of_mem ha
  rcases us.eq_nil_or_concat with rfl | ⟨us, u, rfl⟩
  · cases vs with
    | nil => exact absurd rfl hmany
    | cons v vs =>
      have habove : ∀ b ∈ [a], AtLeast s price b v := hord.above hc
      exact (habove a List.mem_cons_self).fst
  · exact (hord.above hc u (by simp)).snd

/-! ## The walk and the hint -/

section Rated

/- the troves of `xs` can be redeemed, those of `ys` below them cannot -/
variable (hc : IsChain s.sortedTroves (xs ++ ys))
  (hrate : ∀ a ∈ xs ++ ys, getCurrentICR s a price = .ok (rate a)) (hxs : ∀ x ∈ xs, MCR ≤ rate x)
  (hys : ∀ y ∈ ys, rate y < MCR)

include hc hrate hxs hys

/-- the walk passes the troves below MCR and stops at the one above them -/
theorem findRedeemable_eq {us vs : List Address} (hsplit : ys = us ++ vs) {rounds : ℕ} (hrounds : us.length < rounds) :
    findRedeemable s price rounds ((xs ++ us).getLastD 0) = .ok (xs.getLastD 0) := by
  induction us using List.reverseRecOn generalizing vs rounds with
  | nil =>
    obtain ⟨rounds, rfl⟩ := Nat.exists_eq_succ_of_ne_zero (Nat.ne_of_gt hrounds)
    rw [List.append_nil, findRedeemable]
    rcases xs.eq_nil_or_concat with rfl | ⟨xs, x, rfl⟩
    · rfl
    have hx : x ∈ xs.concat x := by simp
    rw [List.concat_eq_append, List.getLastD_concat, if_neg (hc.mem_ne_zero (List.mem_append_left _ hx)),
      hrate x (List.mem_append_left _ hx), ok_bind, if_neg (Nat.not_lt.2 (hxs x hx))]
    rfl
  | append_singleton us u ih =>
    obtain ⟨rounds, rfl⟩ := Nat.exists_eq_succ_of_ne_zero (Nat.ne_of_gt (Nat.zero_lt_of_lt hrounds))
    rw [List.append_assoc, List.singleton_append] at hsplit
    have hu : u ∈ ys := by simp [hsplit]
    have hchain : IsChain s.sortedTroves ((xs ++ us) ++ u :: vs) := by rwa [List.append_assoc, ← hsplit]
    rw [← List.append_assoc, List.getLastD_concat, findRedeemable, if_neg (hc.mem_ne_zero (List.mem_append_right _ hu)),
      hrate u (List.mem_append_right _ hu), ok_bind, if_pos (hys u hu), hchain.getPrev_eq]
    refine ih hsplit ?_
    rw [List.length_append, List.length_singleton] at hrounds
    exact Nat.lt_of_succ_lt_succ hrounds

theorem firstRedeemable_eq : firstRedeemable s price = .ok (xs.getLastD 0) := by
  rw [firstRedeemable, SortedTroves.getLast, hc.tail, SortedTroves.getSize, hc.size]
  refine findRedeemable_eq hc hrate hxs hys (List.append_nil ys).symm ?_
  rw [List.length_append]
  omega

/-- a hint is valid iff it is the last trove that can be redeemed -/
theorem isValidFirstRedemptionHint_eq (hint : Address) :
    isValidFirstRedemptionHint s hint price = .ok (decide (hint ≠ 0 ∧ hint = xs.getLastD 0)) := by
  unfold isValidFirstRedemptionHint
  by_cases hout : hint = 0 ∨ SortedTroves.contains s.sortedTroves hint = false
  · rw [if_pos hout, decide_eq_false]
    rintro ⟨h0, hlast⟩
    rcases hout with h | h
    · exact h0 h
    · have hmem : hint ∈ xs ++ ys := List.mem_append_left _ (hlast ▸ SortedTroves.getLastD_mem (hlast ▸ h0))
      rw [(hc.contains_iff hint).2 hmem] at h
      exact Bool.noConfusion h
  rw [if_neg hout]
  rw [not_or, Bool.not_eq_false, hc.contains_iff] at hout
  obtain ⟨h0, hmem⟩ := hout
  rw [hrate hint hmem, ok_bind]
  rcases List.mem_append.1 hmem with hx | hy
  · rw [if_neg (Nat.not_lt.2 (hxs hint hx))]
    obtain ⟨us, vs, rfl⟩ := List.append_of_mem hx
    have hchain := hc
    rw [List.append_assoc, List.cons_append] at hchain
    dsimp only
    rw [hchain.getNext_eq]
    cases vs with
    | nil =>
      -- the next trove is the first one that cannot be redeemed, if there is one
      rw [List.getLastD_concat, decide_eq_true ⟨h0, rfl⟩, List.nil_append]
      cases ys with
      | nil => rfl
      | cons y ys =>
        rw [List.headD_cons, if_neg (hc.mem_ne_zero (by simp)), hrate y (by simp), ok_bind,
          decide_eq_true (hys y List.mem_cons_self)]
        rfl
    | cons v vs =>
      have hv : v ∈ us ++ hint :: v :: vs := by simp
      have hne : ¬ (hint ≠ 0 ∧ hint = (us ++ hint :: v :: vs).getLastD 0) := by
        rintro ⟨-, heq⟩
        obtain ⟨ws, w, hw⟩ : ∃ ws w, v :: vs = ws ++ [w] := ⟨_, _, (List.dropLast_append_getLast (by simp)).symm⟩
        have hlater : hint ∈ v :: vs := by
          rw [hw, ← List.cons_append, ← List.append_assoc, List.getLastD_concat] at heq
          rw [hw, heq]
          simp
        exact (List.nodup_cons.1 (List.nodup_append.1 (List.nodup_append.1 hc.nodup).1).2.1).1 hlater
      rw [List.cons_append, List.headD_cons, if_neg (hc.mem_ne_zero (by simp)), hrate v (List.mem_append_left _ hv),
        ok_bind, decide_eq_false (Nat.not_lt.2 (hxs v hv)), decide_eq_false hne]
      rfl
  · rw [if_pos (hys hint hy), decide_eq_false]
    · rfl
    rintro ⟨-, hlast⟩
    have hx : hint ∈ xs := hlast ▸ SortedTroves.getLastD_mem (hlast ▸ h0)
    exact absurd (hys hint hy) (Nat.not_lt.2 (hxs hint hx))

end Rated

/-- a single trove without a ratio is no valid hint, and the walk fails on it -/
theorem firstBorrower_unrated {a : Address} {e : Revert} (hc : IsChain s.sortedTroves [a])
    (hICR : getCurrentICR s a price = .error e) (hint : Address) :
    (isValidFirstRedemptionHint s hint price = .ok true ↔ hint ≠ 0 ∧ firstRedeemable s price = .ok hint) ∧
      firstBorrower s price hint = firstRedeemable s price := by
  have ha : a ≠ 0 := hc.mem_ne_zero List.mem_cons_self
  have hfirst : firstRedeemable s price = .error e := by
    rw [firstRedeemable, SortedTroves.getLast, hc.tail, findRedeemable, List.getLastD_cons, List.getLastD_nil, if_neg ha, hICR]
    rfl
  rw [firstBorrower, hfirst]
  unfold isValidFirstRedemptionHint
  by_cases hout : hint = 0 ∨ SortedTroves.contains s.sortedTroves hint = false
  · rw [if_pos hout, ok_bind]
    refine ⟨⟨fun h => ?_, fun h => ?_⟩, rfl⟩
    · cases h
    · cases h.2
  · rw [if_neg hout]
    rw [not_or, Bool.not_eq_false, hc.contains_iff, List.mem_singleton] at hout
    rw [hout.2, hICR]
    refine ⟨⟨fun h => ?_, fun h => ?_⟩, rfl⟩
    · cases h
    · cases h.2

/-! ## Main result -/

/-- **Every hint leads to the same trove.** On a list that is ordered by the ratios at a price, a hint is valid iff it is
the trove that the walk from the tail finds, so with any hint a redemption starts at that trove. The walk ends, unless the
ratio of a single trove cannot be computed. -/
theorem firstBorrower_eq_firstRedeemable (s : System) (ids : List Address) (hc : IsChain s.sortedTroves ids) (price : ℕ)
    (hord : OrderedByICR s price) (hint : Address) :
    (isValidFirstRedemptionHint s hint price = .ok true ↔ hint ≠ 0 ∧ firstRedeemable s price = .ok hint) ∧
      firstBorrower s price hint = firstRedeemable s price ∧
      ((∃ first, firstRedeemable s price = .ok first) ∨ ∃ a e, ids = [a] ∧ getCurrentICR s a price = .error e) := by
  rcases hord.rated hc with hrate | ⟨a, e, rfl, hICR⟩
  case inr =>
    obtain ⟨hvalid, hfirst⟩ := firstBorrower_unrated hc hICR hint
    exact ⟨hvalid, hfirst, .inr ⟨a, e, rfl, hICR⟩⟩
  obtain ⟨xs, ys, rfl, hxs, hys⟩ := (OrderedByICR.descending hord (by rwa [List.append_nil])).split MCR
  have hvalid := isValidFirstRedemptionHint_eq hc hrate hxs hys hint
  have hfirst := firstRedeemable_eq hc hrate hxs hys
  refine ⟨?_, ?_, .inl ⟨_, hfirst⟩⟩
  · rw [hvalid, hfirst, Except.ok.injEq, Except.ok.injEq, decide_eq_true_iff, eq_comm (a := hint)]
  · rw [firstBorrower, hvalid, ok_bind, hfirst]
    by_cases h : hint ≠ 0 ∧ hint = xs.getLastD 0
    · rw [decide_eq_true h, if_pos rfl, ← h.2]
      rfl
    · rw [decide_eq_false h]
      rfl

theorem firstBorrower_eq_firstRedeemable_two :
    ∃ ids,
      (isValidFirstRedemptionHint (reached exampleConfig twoTroves) 1 (2000 * 10 ^ 18) = .ok true ↔
          (1 : Address) ≠ 0 ∧ firstRedeemable (reached exampleConfig twoTroves) (2000 * 10 ^ 18) = .ok 1) ∧
        firstBorrower (reached exampleConfig twoTroves) (2000 * 10 ^ 18) 1 =
          firstRedeemable (reached exampleConfig twoTroves) (2000 * 10 ^ 18) ∧
        ((∃ first, firstRedeemable (reached exampleConfig twoTroves) (2000 * 10 ^ 18) = .ok first) ∨
          ∃ a e, ids = [a] ∧ getCurrentICR (reached exampleConfig twoTroves) a (2000 * 10 ^ 18) = .error e) := by
  obtain ⟨ids, hc, -⟩ := (reached_registry twoTroves).list
  exact ⟨ids, firstBorrower_eq_firstRedeemable (reached exampleConfig twoTroves) ids hc (2000 * 10 ^ 18)
    (orderedByICR_of_nodes (reached_registry twoTroves) (by decide +kernel)) 1⟩

end SimContracts.Protocol
