/-
`liquidateTroves` against `batchLiquidateTroves`.

The first takes troves from the tail of the list and stops at one it does not liquidate; the second goes through an array
and skips such a trove. On a list that is ordered by ICR everything above a trove with a ratio of at least MCR has one too,
so skipping them all is the same as stopping. In recovery mode the first never touches the head of the list.

A liquidated trove leaves the list and the others stay as they were (`Walk`): the node above is the same before and after,
and no ratio changes until the redistribution at the end.

Results:
  liquidateTroves_agrees   the two end in the same state, or both revert
-/
import SimContracts.Protocol.Registry

namespace SimContracts.Protocol

open Solidity TroveManager

variable {c : Config} {env : Env} {s s' s₀ : System} {a b : Address} {price n : ℕ} {xs : List Address}
  {v v' : LiquidationSequence}

/-! ## The nodes from the tail -/

/-- up to `n` nodes from `user` upwards -/
def lastNodes (d : SortedTroves.Data) : ℕ → Address → List Address
  | 0, _ => []
  | n + 1, user => if user = 0 then [] else user :: lastNodes d n (SortedTroves.getPrev d user)

/-- does a liquidation start in recovery mode? -/
def startsInRecovery (s : System) (price : ℕ) : Bool :=
  match checkRecoveryMode s price with
  | .ok mode => mode
  | .error _ => false

/-- the last `n` troves from the tail upwards, without the head in recovery mode -/
def lastTroves (s : System) (recoveryMode : Bool) (n : ℕ) : List Address :=
  let nodes := lastNodes s.sortedTroves n (SortedTroves.getLast s.sortedTroves)
  if recoveryMode then nodes.filter (· ≠ SortedTroves.getFirst s.sortedTroves) else nodes

theorem lastNodes_eq {d : SortedTroves.Data} {ys : List Address} (h : SortedTroves.IsChain d (xs ++ ys)) (n : ℕ) :
    lastNodes d n (xs.getLastD 0) = xs.reverse.take n := by
  induction n generalizing xs ys with
  | zero => rfl
  | succ n ih =>
    rcases xs.eq_nil_or_concat with rfl | ⟨us, u, rfl⟩
    · rfl
    simp only [List.concat_eq_append, List.append_assoc, List.singleton_append] at h ⊢
    have hu : u ≠ 0 := fun e => h.nonzero (by simp [e])
    rw [List.getLastD_concat, lastNodes, if_neg hu, h.getPrev_eq, ih h, List.reverse_append]
    rfl

/-- the whole list from the tail upwards -/
theorem lastNodes_all {d : SortedTroves.Data} (h : SortedTroves.IsChain d xs) (n : ℕ) :
    lastNodes d n (xs.getLastD 0) = xs.reverse.take n :=
  lastNodes_eq (show SortedTroves.IsChain d (xs ++ []) by rwa [List.append_nil]) n

theorem lastTroves_normal (h : SortedTroves.IsChain s.sortedTroves xs) (n : ℕ) :
    lastTroves s false n = xs.reverse.take n := by
  have hlast : SortedTroves.getLast s.sortedTroves = xs.getLastD 0 := h.tail
  rw [lastTroves, hlast, lastNodes_all h]
  rfl

theorem lastTroves_recovery (h : SortedTroves.IsChain s.sortedTroves (a :: xs)) (n : ℕ) :
    lastTroves s true n = xs.reverse.take n := by
  have hlast : SortedTroves.getLast s.sortedTroves = (a :: xs).getLastD 0 := h.tail
  have hfirst : SortedTroves.getFirst s.sortedTroves = a := h.head
  have ha : a ∉ xs := (List.nodup_cons.1 h.nodup).1
  rw [lastTroves, hlast, hfirst, lastNodes_all h, if_pos rfl, List.reverse_cons, List.take_append,
    List.filter_append]
  have hkept : ((xs.reverse.take n).filter (· ≠ a)) = xs.reverse.take n := by
    refine List.filter_eq_self.2 fun x hx => ?_
    have hmem := List.mem_reverse.1 (List.mem_of_mem_take hx)
    exact decide_eq_true fun e => ha (e ▸ hmem)
  have hgone : ∀ m, ([a].take m).filter (· ≠ a) = [] := by
    intro m
    refine List.filter_eq_nil_iff.2 fun x hx => ?_
    have := List.mem_singleton.1 (List.mem_of_mem_take hx)
    simp [this]
  rw [hkept, hgone, List.append_nil]

/-! ## Ordered by ICR -/

/-- the ratio of `a` is at least that of `b` -/
def AtLeast (s : System) (price : ℕ) (a b : Address) : Prop :=
  ∃ x y, getCurrentICR s a price = .ok x ∧ getCurrentICR s b price = .ok y ∧ y ≤ x

/-- the list is non-increasing in the ratios at a price -/
def OrderedByICR (s : System) (price : ℕ) : Prop :=
  ∀ prev next, SortedTroves.contains s.sortedTroves prev = true → SortedTroves.getNext s.sortedTroves prev = next →
    next ≠ 0 → AtLeast s price prev next

instance (s : System) (price : ℕ) (a b : Address) : Decidable (AtLeast s price a b) :=
  decidable_of_iff ((getCurrentICR s a price).failure = none ∧ (getCurrentICR s b price).failure = none ∧
      (getCurrentICR s b price).shown ≤ (getCurrentICR s a price).shown) <| by
    constructor
    · rintro ⟨ha, hb, hle⟩
      obtain ⟨x, hx⟩ := Res.failure_none ha
      obtain ⟨y, hy⟩ := Res.failure_none hb
      rw [hx, hy] at hle
      exact ⟨x, y, hx, hy, hle⟩
    · rintro ⟨x, y, hx, hy, hle⟩
      rw [hx, hy]
      exact ⟨rfl, rfl, hle⟩

/-- the order can be checked on the nodes that the walk from the tail meets -/
theorem orderedByICR_of_nodes (hreg : Registry s)
    (h : (lastNodes s.sortedTroves s.sortedTroves.size (SortedTroves.getLast s.sortedTroves)).all (fun a =>
      SortedTroves.getNext s.sortedTroves a ≠ 0 → AtLeast s price a (SortedTroves.getNext s.sortedTroves a)) = true) :
    OrderedByICR s price := by
  obtain ⟨ids, hc, -⟩ := hreg.list
  have hlast : SortedTroves.getLast s.sortedTroves = ids.getLastD 0 := hc.tail
  rintro prev next hprev rfl h0
  refine of_decide_eq_true (List.all_eq_true.1 h prev ?_) h0
  rw [hlast, lastNodes_all hc, hc.size, ← List.length_reverse, List.take_length,
    List.mem_reverse]
  exact (hc.contains_iff prev).1 hprev

/-- neighbours in order make the whole list ordered -/
theorem OrderedByICR.above {ys : List Address} (h : OrderedByICR s price)
    (hc : SortedTroves.IsChain s.sortedTroves (xs ++ b :: ys)) : ∀ a ∈ xs, AtLeast s price a b := by
  induction xs using List.reverseRecOn generalizing b ys with
  | nil => simp
  | append_singleton us u ih =>
    have hc' := hc
    simp only [List.append_assoc, List.singleton_append] at hc
    have hnext : SortedTroves.getNext s.sortedTroves u = b := by rw [hc.getNext_eq]; rfl
    have hb : b ≠ 0 := fun e => hc.nonzero (by simp [e])
    have hub : AtLeast s price u b := h u b ((hc.contains_iff u).2 (by simp)) hnext hb
    intro a ha
    rcases List.mem_append.1 ha with ha | ha
    · obtain ⟨x, y, hx, hy, hxy⟩ := ih hc a ha
      obtain ⟨y', z, hy', hz, hyz⟩ := hub
      rw [hy] at hy'
      cases hy'
      exact ⟨x, z, hx, hz, hyz.trans hxy⟩
    · rw [List.mem_singleton.1 ha]
      exact hub

/-- every ratio in the list is known to be at least MCR -/
def AboveMCR (s : System) (price : ℕ) (users : List Address) : Prop :=
  ∀ a ∈ users, ∃ x, getCurrentICR s a price = .ok x ∧ MCR ≤ x

/-! ## Skipping is stopping -/

theorem batchNormalLoop_skip {users : List Address} (h : AboveMCR v.s price users) :
    batchNormalLoop c price users v = .ok v := by
  induction users with
  | nil => rfl
  | cons user users ih =>
    obtain ⟨x, hx, hMCR⟩ := h user (by simp)
    rw [batchNormalLoop, hx, ok_bind, if_neg (Nat.not_lt.2 hMCR)]
    exact ih fun a ha => h a (List.mem_cons_of_mem _ ha)

theorem batchRecoveryLoop_skip {users : List Address} (h : AboveMCR v.s price users)
    (hmode : v.backToNormalMode = false → v.remainingSIMInStabPool = 0) : batchRecoveryLoop c price users v = .ok v := by
  induction users with
  | nil => rfl
  | cons user users ih =>
    have hrest := ih fun a ha => h a (List.mem_cons_of_mem _ ha)
    obtain ⟨x, hx, hMCR⟩ := h user (by simp)
    rw [batchRecoveryLoop]
    by_cases hactive : (trove v.s user).status ≠ .active
    · rw [if_pos hactive]
      exact hrest
    rw [if_neg hactive, hx, ok_bind]
    by_cases hback : v.backToNormalMode = false
    · rw [if_pos hback, if_pos ⟨hMCR, hmode hback⟩]
      exact hrest
    · rw [if_neg hback, if_neg (Nat.not_lt.2 hMCR)]
      exact hrest

/-! ## One trove -/

/-- the walk goes on above a trove that was left alone -/
theorem Walk.skip (h : Walk s₀ s (xs ++ [b])) : Walk s₀ s xs := by
  obtain ⟨zs, hstart⟩ := h.start
  obtain ⟨ys, hnow⟩ := h.now
  rw [List.append_assoc] at hstart hnow
  exact ⟨⟨_, hstart⟩, ⟨_, hnow⟩, fun a ha => h.same a (List.mem_append_left _ ha), h.totalStakesSnapshot,
    h.totalCollateralSnapshot⟩

theorem TroveManager.Liquidated.gone {w : LiquidationValues} {SIMInStabPool : ℕ}
    (h : Liquidated c s s' b w SIMInStabPool) : ∃ s₁, Gone s s₁ b ∧ Frame s₁ s' ∧ 1 < s.sortedTroves.size := by
  obtain ⟨t, s₁, s₂, s₃, -, -, -, hmoved, hstake, hshut, hsurplus⟩ := h.steps
  have hclosed := shut_closed hstake hshut
  obtain ⟨htm, hlist⟩ := hmoved.same
  exact ⟨s₃, hclosed.gone.of_eq htm hlist, accountCollSurplus_frame hsurplus, hlist ▸ hclosed.size⟩

/-- one trove of a sequence, left alone or liquidated -/
theorem Walk.step {single : LiquidationValues} (h : Walk s₀ v.s (xs ++ [b])) (hstep : SequenceStep c b v v' single) :
    Walk s₀ v'.s xs := by
  rcases hstep.state with ⟨hs, -⟩ | ⟨-, hl⟩
  · rw [hs]
    exact h.skip
  · obtain ⟨s₁, hgone, hframe, -⟩ := hl.gone
    exact (h.pass hgone).frame hframe

/-- what is above a trove with a ratio of at least MCR -/
theorem Walk.aboveMCR {ICR : ℕ} (h : Walk s₀ s (xs ++ [b])) (hord : OrderedByICR s₀ price)
    (hICR : getCurrentICR s b price = .ok ICR) (hMCR : MCR ≤ ICR) : AboveMCR s price xs := by
  obtain ⟨zs, hstart⟩ := h.start
  simp only [List.append_assoc, List.singleton_append] at hstart
  intro a ha
  obtain ⟨x, y, hx, hy, hxy⟩ := hord.above hstart a ha
  rw [(h.same b (by simp)).getCurrentICR, hy] at hICR
  cases hICR
  refine ⟨x, ?_, hMCR.trans hxy⟩
  rw [(h.same a (List.mem_append_left _ ha)).getCurrentICR]
  exact hx

theorem reverse_take_succ (xs : List Address) (b : Address) (n : ℕ) :
    (xs ++ [b]).reverse.take (n + 1) = b :: xs.reverse.take n := by
  rw [List.reverse_append]
  rfl

/-! ## The loops agree -/

/-- normal mode: the tail is liquidated as long as its ratio is below MCR -/
theorem normalLoop_eq (hw : Walk s₀ v.s xs) (hc : SortedTroves.IsChain v.s.sortedTroves xs) (hord : OrderedByICR s₀ price)
    (hne : xs ≠ []) : liquidateTrovesNormalLoop c price n v = batchNormalLoop c price (xs.reverse.take n) v := by
  induction n generalizing xs v with
  | zero => rfl
  | succ n ih =>
    rcases xs.eq_nil_or_concat with rfl | ⟨us, b, rfl⟩
    · exact absurd rfl hne
    simp only [List.concat_eq_append] at hw hc ⊢
    have hlast : SortedTroves.getLast v.s.sortedTroves = b := by
      rw [SortedTroves.getLast, hc.tail, List.getLastD_concat]
    rw [reverse_take_succ, liquidateTrovesNormalLoop, batchNormalLoop, hlast]
    refine bind_congr_of_ok fun ICR hICR => ?_
    by_cases hlow : ICR < MCR
    · rw [if_pos hlow, if_pos hlow]
      refine bind_congr_of_ok fun v' hv' => ?_
      obtain ⟨single, hstep⟩ := normalStep_ok hv' hICR hlow
      have hgone : ∃ s₁, Gone v.s s₁ b ∧ Frame s₁ v'.s ∧ 1 < v.s.sortedTroves.size := by
        obtain ⟨⟨s', w⟩, h1, h2⟩ := bind_ok.1 hv'
        simp only [usub_bind] at h2
        obtain ⟨totals, -, h2⟩ := bind_ok.1 h2.2
        cases h2
        exact (liquidateNormalMode_ok h1).gone
      obtain ⟨s₁, hgone, hframe, hsize⟩ := hgone
      refine ih (hw.step hstep) ?_ ?_
      · rw [hframe.sortedTroves]
        exact List.append_nil us ▸ SortedTroves.remove_split hc hgone.list
      · rintro rfl
        rw [hc.size] at hsize
        simp at hsize
    · rw [if_neg hlow, if_neg hlow]
      have habove := hw.aboveMCR hord hICR (Nat.not_lt.1 hlow)
      refine (batchNormalLoop_skip fun a ha => ?_).symm
      exact habove a (List.mem_reverse.1 (List.mem_of_mem_take ha))

/-- recovery mode: from the tail up to the head, which is left alone -/
theorem recoveryLoop_eq (hw : Walk s₀ v.s (a :: xs)) (hactive : ∀ x ∈ xs, (trove s₀ x).status = .active)
    (hord : OrderedByICR s₀ price) :
    liquidateTrovesRecoveryLoop c price a n ((a :: xs).getLastD 0) v =
      batchRecoveryLoop c price (xs.reverse.take n) v := by
  induction n generalizing xs v with
  | zero => rfl
  | succ n ih =>
    rcases xs.eq_nil_or_concat with rfl | ⟨us, b, rfl⟩
    · exact if_pos rfl
    simp only [List.concat_eq_append] at hw hactive ⊢
    have hw' : Walk s₀ v.s ((a :: us) ++ [b]) := hw
    have hb : b ≠ a := by
      have := hw'.notMem
      simp only [List.mem_cons, not_or] at this
      exact this.1
    have hlast : (a :: (us ++ [b])).getLastD 0 = b := by
      rw [← List.cons_append, List.getLastD_concat]
    have hstatus : ¬ (trove v.s b).status ≠ .active := by
      rw [(hw'.same b (by simp)).fields.2.2.2, not_not]
      exact hactive b (by simp)
    have habove : ∀ ICR, getCurrentICR v.s b price = .ok ICR → MCR ≤ ICR → AboveMCR v.s price (us.reverse.take n) :=
      fun ICR hICR hMCR x hx => hw'.aboveMCR hord hICR hMCR x
        (List.mem_cons_of_mem _ (List.mem_reverse.1 (List.mem_of_mem_take hx)))
    have hrest : ∀ {v'}, (∃ single, SequenceStep c b v v' single) →
        liquidateTrovesRecoveryLoop c price a n ((a :: us).getLastD 0) v' =
          batchRecoveryLoop c price (us.reverse.take n) v' :=
      fun ⟨single, hstep⟩ => ih (hw'.step hstep) fun x hx => hactive x (List.mem_append_left _ hx)
    rw [reverse_take_succ, hlast, liquidateTrovesRecoveryLoop, batchRecoveryLoop, if_neg hb, if_neg hstatus,
      hw'.getPrev.1]
    refine bind_congr_of_ok fun ICR hICR => ?_
    by_cases hback : v.backToNormalMode = false
    · rw [if_pos hback, if_pos hback]
      by_cases hstop : MCR ≤ ICR ∧ v.remainingSIMInStabPool = 0
      · rw [if_pos hstop, if_pos hstop]
        exact (batchRecoveryLoop_skip (habove ICR hICR hstop.1) fun _ => hstop.2).symm
      · rw [if_neg hstop, if_neg hstop]
        exact bind_congr_of_ok fun v' hv' => hrest (recoveryStep_ok hv' hICR)
    · rw [if_neg hback, if_neg hback]
      by_cases hlow : ICR < MCR
      · rw [if_pos hlow, if_pos hlow]
        exact bind_congr_of_ok fun v' hv' => hrest (normalStep_ok hv' hICR hlow)
      · rw [if_neg hlow, if_neg hlow]
        exact (batchRecoveryLoop_skip (habove ICR hICR (Nat.not_lt.1 hlow)) fun h => absurd h hback).symm

/-! ## The entry points -/

/-- the zero address stands for no trove, whose ratio is infinite -/
theorem getCurrentICR_zero {ICR : ℕ} (hreg : Registry s) (hc : SortedTroves.IsChain s.sortedTroves xs)
    (hids : ∀ a, a ∈ xs ↔ (trove s a).status = .active) (h : getCurrentICR s 0 price = .ok ICR) : ICR = uintMax := by
  have hidle : (trove s 0).status ≠ .active := fun h0 => hc.nonzero ((hids 0).2 h0)
  obtain ⟨x, hx, h⟩ := bind_ok.1 h
  obtain ⟨pw, pd, -, hpd, rfl⟩ := getCurrentTroveAmounts_ok hx
  obtain ⟨-, rfl⟩ := pendingReward_ok hpd
  rw [computeCR_ok h, (hreg.idle 0 hidle).2.1, if_neg hidle]
  rfl

/-- with no trove to take, nothing is liquidated -/
theorem totals_empty (hreg : Registry s) (hc : SortedTroves.IsChain s.sortedTroves [])
    (hids : ∀ a, a ∈ [] ↔ (trove s a).status = .active) {mode : Bool}
    (h : liquidateTrovesTotals c price s mode n = .ok v) : v.totals = .zero := by
  unfold liquidateTrovesTotals at h
  have hlast : SortedTroves.getLast s.sortedTroves = 0 := hc.tail
  have hfirst : SortedTroves.getFirst s.sortedTroves = 0 := hc.head
  cases n with
  | zero =>
    split_ifs at h
    · obtain ⟨debt, -, h⟩ := bind_ok.1 h
      obtain ⟨coll, -, h⟩ := bind_ok.1 h
      cases h
      rfl
    · cases h
      rfl
  | succ n =>
    split_ifs at h
    · obtain ⟨debt, -, h⟩ := bind_ok.1 h
      obtain ⟨coll, -, h⟩ := bind_ok.1 h
      rw [hlast, hfirst, liquidateTrovesRecoveryLoop, if_pos rfl] at h
      cases h
      rfl
    · obtain ⟨ICR, hICR, h⟩ := bind_ok.1 h
      have huser : SortedTroves.getLast (startSequence s 0 0).s.sortedTroves = 0 := hlast
      rw [huser] at hICR
      rw [getCurrentICR_zero hreg hc hids hICR, if_neg (by decide)] at h
      cases h
      rfl

/-- both sequences end alike, on a list with troves -/
theorem totals_eq (hord : OrderedByICR s price) (hc : SortedTroves.IsChain s.sortedTroves (a :: xs))
    (hids : ∀ x, x ∈ a :: xs ↔ (trove s x).status = .active) (mode : Bool) (n : ℕ) :
    liquidateTrovesTotals c price s mode n = batchTotals c price s mode (lastTroves s mode n) := by
  have hwalk : Walk s s (a :: xs) := .begin_ (List.append_nil (a :: xs) ▸ hc)
  have hlast : SortedTroves.getLast s.sortedTroves = (a :: xs).getLastD 0 := hc.tail
  have hfirst : SortedTroves.getFirst s.sortedTroves = a := hc.head
  cases mode with
  | true =>
    rw [liquidateTrovesTotals, batchTotals, if_pos rfl, if_pos rfl, lastTroves_recovery hc, hlast, hfirst]
    refine bind_congr_of_ok fun debt _ => bind_congr_of_ok fun coll _ => ?_
    exact recoveryLoop_eq hwalk (fun x hx => (hids x).1 (List.mem_cons_of_mem _ hx)) hord
  | false =>
    rw [liquidateTrovesTotals, batchTotals, if_neg Bool.false_ne_true, if_neg Bool.false_ne_true, lastTroves_normal hc]
    exact normalLoop_eq hwalk hc hord (List.cons_ne_nil _ _)

theorem lastTroves_nil (hc : SortedTroves.IsChain s.sortedTroves []) (mode : Bool) (n : ℕ) : lastTroves s mode n = [] := by
  have hlast : SortedTroves.getLast s.sortedTroves = ([] : List Address).getLastD 0 := hc.tail
  rw [lastTroves, hlast, lastNodes_all hc]
  cases mode <;> simp

/-- **`liquidateTroves` agrees with `batchLiquidateTroves`** on the last `n` troves from the tail upwards, without the head
in recovery mode: they end in the same state, with the same payment to the caller, or both revert. -/
theorem liquidateTroves_agrees (c : Config) (calls : List (Tx c)) (env : Env) (sender : Address) (n price : ℕ)
    (hprice : env.fetchPrice = .ok price) (hord : OrderedByICR (reached c calls) price) (s' : System) :
    let s := reached c calls
    liquidateTroves c env sender s n = .ok s' ↔
      batchLiquidateTroves c env sender s (lastTroves s (startsInRecovery s price) n) = .ok s' := by
  intro s
  have hreg : Registry s := reached_registry calls
  obtain ⟨ids, hc, hids⟩ := hreg.list
  simp only [liquidateTroves, batchLiquidateTroves, hprice, ok_bind, require_bind]
  cases hmode : checkRecoveryMode s price with
  | error e =>
    constructor
    · intro h
      cases h
    · rintro ⟨-, h⟩
      cases h
  | ok mode =>
    have hstart : startsInRecovery s price = mode := by rw [startsInRecovery, hmode]
    rw [hstart, ok_bind, ok_bind]
    -- totals of nothing do not pass the check
    have hnothing : ∀ v : LiquidationSequence, v.totals = .zero → finishLiquidation c env sender v.s v.totals ≠ .ok s' := by
      intro v hv hfinish
      obtain ⟨_, _, _, _, hs⟩ := finishLiquidation_ok hfinish
      rw [hv] at hs
      exact absurd hs.pos (lt_irrefl 0)
    cases ids with
    | nil =>
      rw [lastTroves_nil hc]
      refine ⟨fun h => ?_, fun h => absurd rfl h.1⟩
      obtain ⟨v, hv, hfinish⟩ := bind_ok.1 h
      exact absurd hfinish (hnothing v (totals_empty hreg hc hids hv))
    | cons a xs =>
      rw [totals_eq hord hc hids mode n]
      refine ⟨fun h => ⟨fun hlen => ?_, h⟩, fun h => h.2⟩
      -- an empty array leaves the totals as they are at the start
      rw [List.length_eq_zero_iff.1 hlen] at h
      obtain ⟨v, hv, hfinish⟩ := bind_ok.1 h
      refine absurd hfinish (hnothing v ?_)
      unfold batchTotals at hv
      split_ifs at hv
      · obtain ⟨debt, -, hv⟩ := bind_ok.1 hv
        obtain ⟨coll, -, hv⟩ := bind_ok.1 hv
        cases hv
        rfl
      · cases hv
        rfl

/-- a price of 1000 -/
def atThousand : Env := ⟨BOOTSTRAP_PERIOD, .ok (1000 * 10 ^ 18), .ok 0, .ok (), .ok (), 0⟩

/-- Alice's trove is the last one and falls below MCR -/
theorem liquidateTroves_agrees_alice :
    lastTroves (reached exampleConfig twoTroves) (startsInRecovery (reached exampleConfig twoTroves) (1000 * 10 ^ 18)) 1 =
        [1] ∧
      ∃ s', liquidateTroves exampleConfig atThousand 2 (reached exampleConfig twoTroves) 1 = .ok s' ∧
        batchLiquidateTroves exampleConfig atThousand 2 (reached exampleConfig twoTroves)
          (lastTroves (reached exampleConfig twoTroves)
            (startsInRecovery (reached exampleConfig twoTroves) (1000 * 10 ^ 18)) 1) = .ok s' := by
  have hord : OrderedByICR (reached exampleConfig twoTroves) (1000 * 10 ^ 18) :=
    orderedByICR_of_nodes (reached_registry twoTroves) (by decide +kernel)
  obtain ⟨s', hs'⟩ : ∃ s', liquidateTroves exampleConfig atThousand 2 (reached exampleConfig twoTroves) 1 = .ok s' :=
    Res.failure_none (by decide +kernel)
  exact ⟨by decide +kernel, s', hs',
    (liquidateTroves_agrees exampleConfig twoTroves atThousand 2 1 (1000 * 10 ^ 18) rfl hord s').1 hs'⟩

end SimContracts.Protocol
