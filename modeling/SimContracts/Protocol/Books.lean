/-
Every tracker of the protocol against what it stands for.

`gap` is the difference, one `Book` each: debt against supply, supply against balances, the Active Pool's collateral and
debt against the troves', the surplus pool against its accounts, the Stability Pool's SIM against its deposits, and the
token balance of each of the four pools against its collateral tracker. `Posts` says what a function adds to the gaps.
A function that moves value between two trackers posts to both; the postings of a whole transaction cancel out, and only
a gift to a pool leaves anything.

Results:
  debt_backs_supply      every SIM in existence is matched by recorded debt
  trackers_agree         each tracker equals the sum it stands for, or is covered by tokens
-/
import SimContracts.Protocol.Registry

namespace SimContracts.Protocol

open Solidity TroveManager BorrowerOperations

variable {c : Config} {env : Env} {s s' s'' : System} {a b caller src dst account sender : Address} {amount : ℕ}

/-! ## Gaps and postings -/

inductive Book where
  | peg
  | coll
  | debt
  | surplus
  | deposits
  | activePool
  | defaultPool
  | stabilityPool
  | collSurplusPool
deriving DecidableEq

/-- what is recorded minus what it stands for -/
noncomputable def gap (c : Config) (s : System) : Book → ℤ
  | .peg => s.sim.totalSupply - (s.activePool.SIMDebt + s.defaultPool.SIMDebt)
  | .coll => s.activePool.WSTETH - (∑ a, (s.troveManager.Troves a).coll : ℕ)
  | .debt => s.activePool.SIMDebt - (∑ a, (s.troveManager.Troves a).debt : ℕ)
  | .surplus => s.collSurplusPool.WSTETH - (∑ a, s.collSurplusPool.balances a : ℕ)
  | .deposits => s.sim.balanceOf c.stabilityPool - s.stabilityPool.totalSIMDeposits
  | .activePool => s.wsteth.balanceOf c.activePool - s.activePool.WSTETH
  | .defaultPool => s.wsteth.balanceOf c.defaultPool - s.defaultPool.WSTETH
  | .stabilityPool => s.wsteth.balanceOf c.stabilityPool - s.stabilityPool.WSTETH
  | .collSurplusPool => s.wsteth.balanceOf c.collSurplusPool - s.collSurplusPool.WSTETH

/-- the tokens of the pools are safe: the pools let nobody spend them, and the balances of SIM add up to its supply -/
structure Sound (c : Config) (s : System) : Prop where
  wsteth : ∀ p ∈ c.pools, ∀ x, s.wsteth.allowance p x = 0
  sim : ∀ x, s.sim.allowance c.stabilityPool x = 0
  supply : s.sim.totalSupply = ∑ a, s.sim.balanceOf a

/-- what a step adds to the gaps -/
def Posts (c : Config) (s s' : System) (δ : Book → ℤ) : Prop :=
  Sound c s → Sound c s' ∧ ∀ k, gap c s' k = gap c s k + δ k

namespace Posts

variable {δ ε : Book → ℤ}

theorem refl (c : Config) (s : System) : Posts c s s 0 := fun h => ⟨h, fun k => by simp⟩

theorem trans (h : Posts c s s' δ) (h' : Posts c s' s'' ε) : Posts c s s'' (δ + ε) := by
  intro hs
  obtain ⟨hs', hδ⟩ := h hs
  obtain ⟨hs'', hε⟩ := h' hs'
  refine ⟨hs'', fun k => ?_⟩
  rw [hε, hδ, Pi.add_apply, add_assoc]

theorem of_eq (h : Posts c s s' δ) (hδ : ∀ k, δ k = ε k) : Posts c s s' ε := by
  intro hs
  obtain ⟨hs', hk⟩ := h hs
  exact ⟨hs', fun k => by rw [hk, hδ]⟩

/-- a step that leaves the tokens alone -/
theorem of_gaps (hw : s'.wsteth = s.wsteth) (hs : s'.sim = s.sim) (hk : ∀ k, gap c s' k = gap c s k + δ k) :
    Posts c s s' δ :=
  fun h => ⟨⟨by rw [hw]; exact h.wsteth, by rw [hs]; exact h.sim, by rw [hs]; exact h.supply⟩, hk⟩

/-- a state that differs in what no book looks at -/
theorem unseen (hw : s'.wsteth = s.wsteth) (hs : s'.sim = s.sim) (ha : s'.activePool = s.activePool)
    (hd : s'.defaultPool = s.defaultPool) (hc : s'.collSurplusPool = s.collSurplusPool)
    (hp : s'.stabilityPool = s.stabilityPool) (ht : s'.troveManager.Troves = s.troveManager.Troves) :
    Posts c s s' 0 := by
  refine of_gaps hw hs fun k => ?_
  cases k <;> simp only [gap, hw, hs, ha, hd, hc, hp, ht, Pi.zero_apply, add_zero]

end Posts

/-- a posting to the peg and to the collateral, debt and surplus books -/
def entry (peg coll debt surplus : ℤ) : Book → ℤ
  | .peg => peg
  | .coll => coll
  | .debt => debt
  | .surplus => surplus
  | _ => 0

theorem Posts.zero (h : Posts c s s' 0) : Posts c s s' (entry 0 0 0 0) := h.of_eq fun k => by cases k <;> rfl

/-- two entries after each other -/
theorem Posts.then {p q w x p' q' w' x' : ℤ} (h : Posts c s s' (entry p q w x)) (h' : Posts c s' s'' (entry p' q' w' x')) :
    Posts c s s'' (entry (p + p') (q + q') (w + w') (x + x')) :=
  (h.trans h').of_eq fun k => by cases k <;> rfl

/-- entries that balance -/
theorem Posts.settle {p q w x p' q' w' x' : ℤ} (h : Posts c s s' (entry p q w x))
    (he : p = p' ∧ q = q' ∧ w = w' ∧ x = x') : Posts c s s' (entry p' q' w' x') := by
  obtain ⟨rfl, rfl, rfl, rfl⟩ := he
  exact h

/-! ### Tokens -/

/-- `amount` if the two addresses are the same -/
def amountIf (x y : Address) (amount : ℕ) : ℤ := if x = y then (amount : ℤ) else 0

theorem amountIf_self (x : Address) (amount : ℕ) : amountIf x x amount = amount := if_pos rfl
theorem amountIf_ne {x y : Address} (h : x ≠ y) (amount : ℕ) : amountIf x y amount = 0 := if_neg h
theorem cast_if (x y : Address) (amount : ℕ) : ((if y = x then amount else 0 : ℕ) : ℤ) = amountIf x y amount := by
  unfold amountIf
  split_ifs with h1 h2 h2
  · rfl
  · exact absurd h1.symm h2
  · exact absurd h2.symm h1
  · rfl

theorem amountIf_zero (x y : Address) : amountIf x y 0 = 0 := by simp [amountIf]

/-- what a transfer does to one balance -/
theorem transfer_int {t t' : ERC20} (h : t.transfer src dst amount = .ok t') (x : Address) :
    (t'.balanceOf x : ℤ) = t.balanceOf x + (amountIf x dst amount - amountIf x src amount) := by
  have hbal := ERC20.transfer_balance h x
  unfold amountIf
  split_ifs at hbal ⊢ <;> omega

/-- a transfer of wstETH posts to the pools that take part -/
def paidWSTETH (c : Config) (src dst : Address) (amount : ℕ) : Book → ℤ
  | .activePool => amountIf c.activePool dst amount - amountIf c.activePool src amount
  | .defaultPool => amountIf c.defaultPool dst amount - amountIf c.defaultPool src amount
  | .stabilityPool => amountIf c.stabilityPool dst amount - amountIf c.stabilityPool src amount
  | .collSurplusPool => amountIf c.collSurplusPool dst amount - amountIf c.collSurplusPool src amount
  | _ => 0

/-- a transfer between accounts that are no pools posts nothing -/
theorem paidWSTETH_outside (hsrc : src ∉ c.pools) (hdst : dst ∉ c.pools) (k : Book) :
    paidWSTETH c src dst amount k = 0 := by
  simp only [Config.pools, List.mem_cons, List.not_mem_nil, or_false, not_or] at hsrc hdst
  cases k <;> simp only [paidWSTETH, amountIf_ne (Ne.symm hsrc.1), amountIf_ne (Ne.symm hsrc.2.1),
    amountIf_ne (Ne.symm hsrc.2.2.1), amountIf_ne (Ne.symm hsrc.2.2.2), amountIf_ne (Ne.symm hdst.1),
    amountIf_ne (Ne.symm hdst.2.1), amountIf_ne (Ne.symm hdst.2.2.1), amountIf_ne (Ne.symm hdst.2.2.2), sub_zero]

theorem wsteth_posts {t : ERC20} (h : s.wsteth.transfer src dst amount = .ok t) :
    Posts c s { s with wsteth := t } (paidWSTETH c src dst amount) := by
  intro hs
  obtain ⟨-, -, hal, -⟩ := ERC20.transfer_ok h
  refine ⟨⟨by rw [hal]; exact hs.wsteth, hs.sim, hs.supply⟩, fun k => ?_⟩
  cases k <;> simp only [gap, paidWSTETH, transfer_int h, add_zero] <;> ring

theorem transferWSTETH_posts (h : transferWSTETH s src dst amount = .ok s') :
    Posts c s s' (paidWSTETH c src dst amount) := by
  obtain ⟨t, ht, rfl⟩ := transferWSTETH_ok h
  exact wsteth_posts ht

theorem transferFromWSTETH_posts (h : transferFromWSTETH s caller src dst amount = .ok s') :
    Posts c s s' (paidWSTETH c src dst amount) := by
  obtain ⟨t, ht, rfl⟩ := transferFromWSTETH_ok h
  obtain ⟨t₁, hbal, -, htr⟩ := ERC20.transferFrom_ok ht
  intro hs
  refine ⟨⟨fun p hp => (ERC20.transferFrom_unapproved ht (hs.wsteth p hp)).1, hs.sim, hs.supply⟩, fun k => ?_⟩
  cases k <;> simp only [gap, paidWSTETH, transfer_int htr, hbal, add_zero] <;> ring

/-- a transfer of SIM posts to the deposits if the Stability Pool takes part -/
def paidSIM (c : Config) (src dst : Address) (amount : ℕ) : Book → ℤ
  | .deposits => amountIf c.stabilityPool dst amount - amountIf c.stabilityPool src amount
  | _ => 0

theorem sim_posts {t : ERC20} (h : s.sim.transfer src dst amount = .ok t) :
    Posts c s { s with sim := t } (paidSIM c src dst amount) := by
  intro hs
  obtain ⟨-, hsupply, hal, -⟩ := ERC20.transfer_ok h
  have hsum := ERC20.transfer_sum h
  refine ⟨⟨hs.wsteth, by rw [hal]; exact hs.sim, by rw [hsupply, hsum]; exact hs.supply⟩, fun k => ?_⟩
  cases k <;> simp only [gap, paidSIM, transfer_int h, hsupply, add_zero]
  ring

/-- nobody else moves SIM of the Stability Pool -/
theorem sim_transferFrom_posts {t : ERC20} (h : s.sim.transferFrom caller src dst amount = .ok t)
    (hdst : dst ≠ c.stabilityPool) : Posts c s { s with sim := t } 0 := by
  intro hs
  obtain ⟨t₁, hbal, hsupply', htr⟩ := ERC20.transferFrom_ok h
  obtain ⟨-, hsupply, -, -⟩ := ERC20.transfer_ok htr
  obtain ⟨hal, hpool, -⟩ := ERC20.transferFrom_unapproved h hs.sim
  have hsum := ERC20.transfer_sum htr
  rw [hbal] at hsum
  rw [if_neg (Ne.symm hdst), Nat.add_zero] at hpool
  refine ⟨⟨hs.wsteth, hal, by rw [hsupply, hsupply', hsum]; exact hs.supply⟩, fun k => ?_⟩
  cases k <;> simp only [gap, hsupply, hsupply', hpool, Pi.zero_apply, add_zero]

/-- new SIM widens the peg -/
theorem mint_posts {t : ERC20} (h : s.sim.mint account amount = .ok t) (hne : account ≠ c.stabilityPool) :
    Posts c s { s with sim := t } (entry amount 0 0 0) := by
  intro hs
  obtain ⟨hsupply, hal, hbal⟩ := ERC20.mint_ok h
  have hsum := ERC20.mint_sum h
  have hpool : t.balanceOf c.stabilityPool = s.sim.balanceOf c.stabilityPool := by
    rw [hbal, Function.update_of_ne (Ne.symm hne)]
  refine ⟨⟨hs.wsteth, by rw [hal]; exact hs.sim, by rw [hsupply, hsum, hs.supply]⟩, fun k => ?_⟩
  cases k <;> simp only [gap, entry, hsupply, hpool, add_zero]
  push_cast
  ring

/-- burned SIM narrows the peg -/
def burned (c : Config) (account : Address) (amount : ℕ) : Book → ℤ
  | .peg => -amount
  | .deposits => -amountIf c.stabilityPool account amount
  | _ => 0

theorem burn_posts {t : ERC20} (h : s.sim.burn account amount = .ok t) :
    Posts c s { s with sim := t } (burned c account amount) := by
  intro hs
  obtain ⟨hle, hsupply, hal, hbal⟩ := ERC20.burn_ok h
  have hsum := ERC20.burn_sum h
  have hle' := Ledger.le_sum s.sim.balanceOf account
  have htotal := hs.supply
  refine ⟨⟨hs.wsteth, by rw [hal]; exact hs.sim, by simp only [hsupply]; omega⟩, fun k => ?_⟩
  cases k with
  | deposits =>
    simp only [gap, burned, hbal, amountIf, Function.update_apply]
    split_ifs with he
    · subst he
      omega
    · ring
  | peg =>
    simp only [gap, burned, hsupply]
    omega
  | _ => simp only [gap, burned, add_zero]

theorem burn_posts_outside {t : ERC20} (h : s.sim.burn account amount = .ok t)
    (hne : account = c.stabilityPool → amount = 0) : Posts c s { s with sim := t } (entry (-amount) 0 0 0) := by
  refine (burn_posts h).of_eq fun k => ?_
  cases k <;> simp only [burned, entry]
  by_cases he : c.stabilityPool = account
  · rw [hne he.symm, amountIf_zero, neg_zero]
  · rw [amountIf_ne he, neg_zero]

/-! ### Pools -/

/-- collateral the Active Pool sends to another account leaves its books, and enters those of the surplus pool -/
theorem sendWSTETH_posts (h : ActivePool.sendWSTETH c caller s account amount = .ok s') (hne : account ≠ c.activePool) :
    Posts c s s' (entry 0 (-amount) 0 (amountIf c.collSurplusPool account amount)) := by
  obtain ⟨hle, t, ht, hn⟩ := ActivePool.sendWSTETH_ok h
  obtain ⟨h1, h2, h3, -, -, -⟩ := c.ne
  intro hs
  obtain ⟨-, -, hal, -⟩ := ERC20.transfer_ok ht
  refine ⟨⟨by rw [hn.wsteth, hal]; exact hs.wsteth, by rw [hn.sim]; exact hs.sim, by rw [hn.sim]; exact hs.supply⟩, ?_⟩
  intro k
  have hbal := transfer_int ht
  cases k <;> simp only [gap, entry, hn.wsteth, hn.sim, hn.activePool, hn.troveManager, hn.defaultPool,
    hn.stabilityPool, hn.collSurplusPool, hbal, Nat.cast_add, cast_if, add_zero]
  · omega
  · ring
  · rw [amountIf_ne (Ne.symm hne), amountIf_self]
    omega
  · rw [amountIf_ne (Ne.symm h1)]
    ring
  · rw [amountIf_ne (Ne.symm h2)]
    ring
  · rw [amountIf_ne (Ne.symm h3)]
    ring

theorem increaseSIMDebt_posts (h : ActivePool.increaseSIMDebt c caller s amount = .ok s') :
    Posts c s s' (entry (-amount) 0 amount 0) := by
  obtain rfl := ActivePool.increaseSIMDebt_ok h
  refine Posts.of_gaps rfl rfl fun k => ?_
  cases k <;> simp only [gap, entry, add_zero] <;> push_cast <;> ring

theorem decreaseSIMDebt_posts (h : ActivePool.decreaseSIMDebt c caller s amount = .ok s') :
    Posts c s s' (entry amount 0 (-amount) 0) := by
  obtain ⟨hle, rfl⟩ := ActivePool.decreaseSIMDebt_ok h
  refine Posts.of_gaps rfl rfl fun k => ?_
  cases k <;> simp only [gap, entry, add_zero] <;> push_cast [Nat.cast_sub hle] <;> ring

theorem activePoolAddColl_posts (h : activePoolAddColl c s amount = .ok s') : Posts c s s' (entry 0 amount 0 0) := by
  obtain ⟨s₁, h1, h⟩ := bind_ok.1 h
  obtain rfl := ActivePool.receiveWSTETH_ok h
  have hpost := transferWSTETH_posts (c := c) h1
  obtain ⟨t, ht, rfl⟩ := transferWSTETH_ok h1
  have hbo := c.borrowerOperations_notMem
  simp only [Config.pools, List.mem_cons, List.not_mem_nil, or_false, not_or] at hbo
  obtain ⟨g1, g2, g3, -, -, -⟩ := c.ne
  intro hs
  obtain ⟨hs', hk⟩ := hpost hs
  refine ⟨⟨hs'.wsteth, hs'.sim, hs'.supply⟩, fun k => ?_⟩
  have hgap := hk k
  cases k <;> simp only [gap, entry, paidWSTETH, amountIf_self, amountIf_ne (Ne.symm hbo.1), amountIf_ne (Ne.symm hbo.2.1),
    amountIf_ne (Ne.symm hbo.2.2.1), amountIf_ne (Ne.symm hbo.2.2.2), amountIf_ne (Ne.symm g1), amountIf_ne (Ne.symm g2),
    amountIf_ne (Ne.symm g3)] at hgap ⊢ <;> omega

theorem issueSIM_posts {SIMAmount : ℕ} (h : issueSIM c s account SIMAmount amount = .ok s')
    (hne : account ≠ c.stabilityPool) : Posts c s s' (entry (SIMAmount - amount) 0 amount 0) := by
  obtain ⟨s₁, h1, h⟩ := bind_ok.1 h
  obtain ⟨t, ht, rfl⟩ := SIMToken.mint_ok h
  exact ((increaseSIMDebt_posts h1).then (mint_posts ht hne)).settle ⟨by ring, by ring, by ring, by ring⟩

theorem burnSIM_posts (h : burnSIM c s account amount = .ok s') (hne : account = c.stabilityPool → amount = 0) :
    Posts c s s' (entry 0 0 (-amount) 0) := by
  obtain ⟨s₁, h1, h⟩ := bind_ok.1 h
  obtain ⟨t, ht, rfl⟩ := SIMToken.burn_ok h
  exact ((decreaseSIMDebt_posts h1).then (burn_posts_outside ht hne)).settle ⟨by ring, by ring, by ring, by ring⟩

/-- rewards that move from the Default Pool to the Active Pool -/
theorem moved_posts {SIM WSTETH : ℕ} (h : Moved c s s' SIM WSTETH) : Posts c s s' (entry 0 WSTETH SIM 0) := by
  obtain ⟨t, ht, rfl⟩ := h.state
  have hd := h.debt_le
  have hc := h.coll_le
  obtain ⟨g1, g2, g3, g4, g5, -⟩ := c.ne
  intro hs
  obtain ⟨hs', hk⟩ := wsteth_posts (c := c) ht hs
  refine ⟨⟨hs'.wsteth, hs'.sim, hs'.supply⟩, fun k => ?_⟩
  have hgap := hk k
  cases k <;> simp only [gap, entry, paidWSTETH, amountIf_self, amountIf_ne g1, amountIf_ne (Ne.symm g1),
    amountIf_ne (Ne.symm g2), amountIf_ne (Ne.symm g3), amountIf_ne (Ne.symm g4), amountIf_ne (Ne.symm g5)] at hgap ⊢ <;>
    omega

theorem accountSurplus_posts (h : CollSurplusPool.accountSurplus c caller s account amount = .ok s') :
    Posts c s s' (entry 0 0 0 (-amount)) := by
  obtain rfl := CollSurplusPool.accountSurplus_ok h
  have hsum := Ledger.sum_update (fun _ (x : ℕ) => x) s.collSurplusPool.balances account
    (s.collSurplusPool.balances account + amount)
  refine Posts.of_gaps rfl rfl fun k => ?_
  cases k <;> simp only [gap, entry, add_zero]
  omega

theorem claimColl_posts (h : CollSurplusPool.claimColl c caller s account = .ok s') (hne : account ∉ c.pools) :
    Posts c s s' 0 := by
  obtain ⟨hle, t, ht, rfl⟩ := CollSurplusPool.claimColl_ok h
  have hsum := Ledger.sum_update (fun _ (x : ℕ) => x) s.collSurplusPool.balances account 0
  obtain ⟨-, -, g3, -, g5, g6⟩ := c.ne
  simp only [Config.pools, List.mem_cons, List.not_mem_nil, or_false, not_or] at hne
  intro hs
  obtain ⟨hs', hk⟩ := wsteth_posts (c := c) ht hs
  refine ⟨⟨hs'.wsteth, hs'.sim, hs'.supply⟩, fun k => ?_⟩
  have hgap := hk k
  cases k <;> simp only [gap, paidWSTETH, amountIf_self, amountIf_ne g3, amountIf_ne g5, amountIf_ne g6,
    amountIf_ne (Ne.symm hne.1), amountIf_ne (Ne.symm hne.2.1), amountIf_ne (Ne.symm hne.2.2.1),
    amountIf_ne (Ne.symm hne.2.2.2), Pi.zero_apply] at hgap ⊢ <;> omega

/-! ### Troves -/

/-- one trove gets other amounts -/
theorem trove_posts (coll debt : ℕ) (hrest : s' = { s with troveManager := s'.troveManager, sortedTroves := s'.sortedTroves })
    (hself : (trove s' b).coll = coll ∧ (trove s' b).debt = debt)
    (hother : ∀ a, a ≠ b → (trove s' a).coll = (trove s a).coll ∧ (trove s' a).debt = (trove s a).debt) :
    Posts c s s' (entry 0 ((trove s b).coll - coll) ((trove s b).debt - debt) 0) := by
  have hcoll := Ledger.sum_replace (f := fun x => (trove s x).coll) (g := fun x => (trove s' x).coll) (a := b)
    fun x hx => (hother x hx).1
  have hdebt := Ledger.sum_replace (f := fun x => (trove s x).debt) (g := fun x => (trove s' x).debt) (a := b)
    fun x hx => (hother x hx).2
  rw [hself.1] at hcoll
  rw [hself.2] at hdebt
  simp only [trove] at hcoll hdebt
  rw [hrest]
  refine Posts.of_gaps rfl rfl fun k => ?_
  cases k <;> simp only [gap, entry, trove, add_zero] <;> omega

theorem edited_posts {coll debt : ℕ} (h : Edited s s' b coll debt) :
    Posts c s s' (entry 0 ((trove s b).coll - coll) ((trove s b).debt - debt) 0) := by
  obtain ⟨stake, -, -, htm⟩ := h.stake
  refine trove_posts coll debt h.rest ?_ fun a ha => ?_
  · simp [trove, htm]
  · simp [trove, htm, ha]

theorem created_posts {coll debt NICR : ℕ} (h : Created s s' b coll debt NICR) :
    Posts c s s' (entry 0 (-coll) (-debt) 0) := by
  obtain ⟨stake, -, -, htm⟩ := h.stake
  refine (trove_posts ((trove s b).coll + coll) ((trove s b).debt + debt) h.rest ?_ fun a ha => ?_).settle
    ⟨rfl, by push_cast; ring, by push_cast; ring, rfl⟩
  · rw [trove, htm, createdManager_self]
    exact ⟨rfl, rfl⟩
  · rw [trove, htm, createdManager_other _ _ _ _ ha]
    exact ⟨rfl, rfl⟩

theorem closed_posts {status : Status} (h : Closed s s' b status) :
    Posts c s s' (entry 0 (trove s b).coll (trove s b).debt 0) := by
  obtain ⟨⟨i, hself⟩, hother, -⟩ := h.troves
  refine (trove_posts 0 0 h.rest ?_ fun a ha => ?_).settle
    ⟨rfl, by push_cast; ring, by push_cast; ring, rfl⟩
  · rw [hself]
    exact ⟨rfl, rfl⟩
  · obtain ⟨j, hj⟩ := hother a ha
    rw [hj]
    exact ⟨rfl, rfl⟩

/-- rewards reach the trove and the Active Pool together -/
theorem settlePendingRewards_posts (h : settlePendingRewards c s b = .ok s') : Posts c s s' (entry 0 0 0 0) := by
  rcases settlePendingRewards_ok h with ⟨-, rfl⟩ | ⟨-, pw, pd, -, -, hmoved⟩
  · exact (Posts.refl c _).zero
  · have htrove : Posts c s { s with troveManager := settledManager s.troveManager b pw pd } (entry 0 (-pw) (-pd) 0) := by
      refine (trove_posts (b := b) ((trove s b).coll + pw) ((trove s b).debt + pd) rfl ?_ fun a ha => ?_).settle
        ⟨rfl, by push_cast; ring, by push_cast; ring, rfl⟩
      · simp [trove, settledManager]
      · simp [trove, settledManager, ha]
    exact (htrove.then (moved_posts hmoved)).settle ⟨by ring, by ring, by ring, by ring⟩

theorem chargeFee_posts {charged : Bool} {SIMAmount maxFee netDebt : ℕ}
    (h : chargeFee c env s charged SIMAmount maxFee = .ok (s', netDebt)) :
    Posts c s s' (entry (netDebt - SIMAmount) 0 0 0) := by
  obtain ⟨fee, hf⟩ := chargeFee_ok h
  obtain ⟨r, t, ht⟩ := hf.state
  have hveNe : c.simVeDistributor ≠ c.stabilityPool := by
    have := c.simVeDistributor_outside
    simp only [List.mem_cons, not_or] at this
    exact this.2.2.1
  have hfeeNe : c.feeReceiver ≠ c.stabilityPool := by
    have := c.feeReceiver_outside
    simp only [List.mem_cons, not_or] at this
    exact this.2.2.1
  have hsim : Posts c s { s with sim := s'.sim } (entry fee 0 0 0) := by
    rcases hf.sim with ⟨t₁, h1, h2⟩ | ⟨rfl, hsame⟩
    · have hhalf := Nat.div_le_self fee 2
      refine ((mint_posts h1 hveNe).then (mint_posts (s := { s with sim := t₁ }) h2 hfeeNe)).settle
        ⟨by omega, by ring, by ring, by ring⟩
    · refine Posts.zero (Posts.unseen ?_ ?_ ?_ ?_ ?_ ?_ ?_) <;> try rfl
      exact hsame
  have hrate : Posts c { s with sim := s'.sim } s' (entry 0 0 0 0) := by
    refine Posts.zero (Posts.unseen ?_ ?_ ?_ ?_ ?_ ?_ ?_) <;> rw [ht]
  refine (hsim.then hrate).settle ⟨?_, by ring, by ring, by ring⟩
  rw [hf.netDebt]
  push_cast
  ring

/-! ### Liquidation -/

theorem redistributed_posts {debt coll : ℕ} (h : Redistributed c s s' debt coll) :
    Posts c s s' (entry 0 (-coll) (-debt) 0) := by
  obtain ⟨rw, ew, rd, ed, t, -, -, ht, rfl⟩ := h.state
  have hd := h.debt_le
  have hc := h.coll_le
  obtain ⟨g1, g2, g3, g4, g5, -⟩ := c.ne
  intro hs
  obtain ⟨hs', hk⟩ := wsteth_posts (c := c) ht hs
  refine ⟨⟨hs'.wsteth, hs'.sim, hs'.supply⟩, fun k => ?_⟩
  have hgap := hk k
  cases k <;> simp only [gap, entry, paidWSTETH, amountIf_self, amountIf_ne g1, amountIf_ne (Ne.symm g1),
    amountIf_ne (Ne.symm g2), amountIf_ne (Ne.symm g3), amountIf_ne (Ne.symm g4), amountIf_ne (Ne.symm g5)] at hgap ⊢ <;>
    omega

/-- debt that the Stability Pool cancels, with the collateral it gets: nothing is lost where it does nothing -/
theorem offset_posts {debt coll : ℕ} (h : StabilityPool.offset c env caller s debt coll = .ok s')
    (hempty : s.stabilityPool.totalSIMDeposits = 0 → debt = 0) (hcoll : debt = 0 → coll = 0) :
    Posts c s s' (entry 0 (-coll) (-debt) 0) := by
  rcases offset_steps h with ⟨hskip, rfl⟩ | ⟨-, hle, issued, pool, t, hpool, ht, hsent⟩
  · obtain rfl : debt = 0 := hskip.elim hempty id
    obtain rfl := hcoll rfl
    exact ((Posts.refl c s').zero).settle ⟨rfl, by simp, by simp, rfl⟩
  · obtain ⟨hdeposits, htotal, hWSTETH⟩ := hpool.deposits
    have hcancel : Posts c s
        { s with
          activePool := { s.activePool with SIMDebt := s.activePool.SIMDebt - debt }
          stabilityPool := pool
          sim := t } (entry 0 0 (-debt) 0) := by
      intro hs
      obtain ⟨hs', hk⟩ := burn_posts (c := c) (s := s) ht hs
      refine ⟨⟨hs'.wsteth, hs'.sim, hs'.supply⟩, fun k => ?_⟩
      have hgap := hk k
      cases k <;> simp only [gap, entry, burned, amountIf_self] at hgap ⊢ <;> omega
    have hsent := sendWSTETH_posts hsent (Ne.symm c.ne.2.1)
    rw [amountIf_ne (Ne.symm c.ne.2.2.2.2.2)] at hsent
    exact (hcancel.then hsent).settle ⟨by ring, by ring, by ring, by ring⟩

theorem accountCollSurplus_posts (h : accountCollSurplus c s account amount = .ok s') :
    Posts c s s' (entry 0 0 0 (-amount)) := by
  unfold accountCollSurplus at h
  split_ifs at h with hpos
  · exact accountSurplus_posts h
  · cases h
    exact (Posts.refl c s).zero.settle ⟨rfl, rfl, rfl, by omega⟩

/-- a liquidated trove leaves its collateral and debt in the Active Pool, less the surplus of its owner -/
theorem liquidated_posts {v : LiquidationValues} {SIMInStabPool : ℕ} (h : Liquidated c s s' b v SIMInStabPool) :
    Posts c s s' (entry 0 v.entireTroveColl v.entireTroveDebt (-v.collSurplus)) := by
  obtain ⟨t, s₁, s₂, s₃, ht, hdebt, hcoll, hmoved, hstake, hshut, hsurplus⟩ := h.steps
  obtain ⟨-, -, hd, hc⟩ := getEntireDebtAndColl_ok ht
  have htrove : trove s₁ b = trove s b := by simp only [trove, hmoved.same.1]
  refine (((moved_posts hmoved).then (closed_posts (shut_closed hstake hshut))).then
    (accountCollSurplus_posts hsurplus)).settle ⟨by ring, ?_, ?_, by ring⟩
  · rw [htrove, hcoll, hc]
    push_cast
    ring
  · rw [htrove, hdebt, hd]
    push_cast
    ring

/-- what a sequence has added up, against the deposits it started with -/
structure Added (t : LiquidationTotals) (remaining deposits : ℕ) : Prop where
  debt : t.totalDebtToOffset + t.totalDebtToRedistribute = t.totalDebtInSequence
  coll : t.totalCollGasCompensation + t.totalCollToSendToSP + t.totalCollToRedistribute + t.totalCollSurplus =
    t.totalCollInSequence
  deposits : t.totalDebtToOffset + remaining = deposits
  offset : t.totalDebtToOffset = 0 → t.totalCollToSendToSP = 0
  redistribute : t.totalDebtToRedistribute = 0 → t.totalCollToRedistribute = 0

theorem Added.zero (deposits : ℕ) : Added .zero deposits deposits :=
  ⟨rfl, rfl, Nat.zero_add _, fun _ => rfl, fun _ => rfl⟩

theorem Added.add {t : LiquidationTotals} {v : LiquidationValues} {remaining remaining' deposits : ℕ}
    (h : Added t remaining deposits) (hs : Split v remaining) (hpos : 0 < v.entireTroveDebt)
    (hrem : v.debtToOffset + remaining' = remaining) : Added (t.add v) remaining' deposits := by
  obtain ⟨h1, h2, h3, h4, h5⟩ := h
  obtain ⟨g1, g2, g3, g4, g5, -⟩ := hs
  refine ⟨?_, ?_, ?_, fun h0 => ?_, fun h0 => ?_⟩ <;> dsimp only [LiquidationTotals.add] at *
  · omega
  · omega
  · omega
  · rw [h4 (by omega), g4 (by omega)]
  · rw [h5 (by omega), g5 hpos (by omega)]

theorem accountCollSurplus_stabilityPool (h : accountCollSurplus c s account amount = .ok s') :
    s'.stabilityPool = s.stabilityPool := by
  unfold accountCollSurplus at h
  split_ifs at h with hpos
  · rw [CollSurplusPool.accountSurplus_ok h]
  · cases h
    rfl

theorem liquidated_stabilityPool {v : LiquidationValues} {SIMInStabPool : ℕ} (h : Liquidated c s s' b v SIMInStabPool) :
    s'.stabilityPool = s.stabilityPool := by
  obtain ⟨t, s₁, s₂, s₃, -, -, -, hmoved, hstake, hshut, hsurplus⟩ := h.steps
  rw [accountCollSurplus_stabilityPool hsurplus, (shut_closed hstake hshut).rest]
  obtain ⟨u, -, rfl⟩ := hmoved.state
  rfl

/-- the sequence as a whole -/
theorem sequence_posts {v v' : LiquidationSequence} {deposits : ℕ} (h : Sequence c v v')
    (hv : Added v.totals v.remainingSIMInStabPool deposits)
    (hstart : v.totals.totalCollInSequence = 0 ∧ v.totals.totalDebtInSequence = 0 ∧ v.totals.totalCollSurplus = 0) :
    Added v'.totals v'.remainingSIMInStabPool deposits ∧ v'.s.stabilityPool = v.s.stabilityPool ∧
      Posts c v.s v'.s
        (entry 0 v'.totals.totalCollInSequence v'.totals.totalDebtInSequence (-v'.totals.totalCollSurplus)) := by
  induction h with
  | refl =>
    obtain ⟨h1, h2, h3⟩ := hstart
    refine ⟨hv, rfl, (Posts.refl c v.s).zero.settle ⟨rfl, ?_, ?_, ?_⟩⟩
    · simp [h1]
    · simp [h2]
    · simp [h3]
  | tail _ hstep ih =>
    obtain ⟨hadded, hpool, hposts⟩ := ih
    obtain ⟨user, single, hstep⟩ := hstep
    have hrem := hstep.remaining
    rw [hstep.totals]
    rcases hstep.state with ⟨hs, rfl⟩ | ⟨hpos, hl⟩
    · simp only [LiquidationValues.zero, Nat.zero_add] at hrem
      rw [hs, hrem]
      exact ⟨hadded, hpool, hposts⟩
    · refine ⟨hadded.add hl.split hpos hrem, (liquidated_stabilityPool hl).trans hpool,
        (hposts.then (liquidated_posts hl)).settle ⟨by ring, ?_, ?_, ?_⟩⟩ <;>
        · dsimp only [LiquidationTotals.add]
          push_cast
          ring

theorem finishLiquidation_posts {t : LiquidationTotals} {remaining : ℕ} (hne : sender ∉ c.pools)
    (ht : Added t remaining s.stabilityPool.totalSIMDeposits) (h : finishLiquidation c env sender s t = .ok s') :
    Posts c s s' (entry 0 (-t.totalCollInSequence) (-t.totalDebtInSequence) t.totalCollSurplus) := by
  obtain ⟨s₁, s₂, s₃, s₄, hs⟩ := finishLiquidation_ok h
  simp only [Config.pools, List.mem_cons, List.not_mem_nil, or_false, not_or] at hne
  have hoffset := offset_posts hs.offset (by have := ht.deposits; omega) ht.offset
  have hred : Posts c s₁ s₂ (entry 0 (-t.totalCollToRedistribute) (-t.totalDebtToRedistribute) 0) := by
    rcases redistributeDebtAndColl_ok hs.redistributed with ⟨h0, rfl⟩ | ⟨-, hred⟩
    · refine (Posts.refl c _).zero.settle ⟨rfl, ?_, ?_, rfl⟩
      · rw [ht.redistribute h0]
        rfl
      · rw [h0]
        rfl
    · exact redistributed_posts hred
  have hsurplus : Posts c s₂ s₃ (entry 0 (-t.totalCollSurplus) 0 t.totalCollSurplus) := by
    have h3 := hs.surplus
    unfold sendCollSurplus at h3
    split_ifs at h3 with hpos
    · have hsent := sendWSTETH_posts h3 (Ne.symm c.ne.2.2.1)
      rwa [amountIf_self] at hsent
    · cases h3
      exact (Posts.refl c _).zero.settle ⟨rfl, by omega, rfl, by omega⟩
  have hsnapshot : Posts c s₃ s₄ (entry 0 0 0 0) := by
    obtain ⟨-, rfl⟩ := updateSystemSnapshots_ok hs.snapshot
    refine Posts.zero (Posts.unseen ?_ ?_ ?_ ?_ ?_ ?_ ?_) <;> rfl
  have hgas : Posts c s₄ s' (entry 0 (-t.totalCollGasCompensation) 0 0) := by
    have h5 := hs.compensation
    unfold sendGasCompensation at h5
    split_ifs at h5 with hpos
    · have hsent := sendWSTETH_posts h5 hne.1
      rwa [amountIf_ne (Ne.symm hne.2.2.2)] at hsent
    · cases h5
      exact (Posts.refl c _).zero.settle ⟨rfl, by omega, rfl, rfl⟩
  have hd := ht.debt
  have hc := ht.coll
  exact ((((hoffset.then hred).then hsurplus).then hsnapshot).then hgas).settle
    ⟨by ring, by omega, by omega, by ring⟩

/-- both entry points: what the sequence took out of the troves, the payments take out of the pools -/
theorem liquidation_posts {totals : ℕ → Bool → Res LiquidationSequence} {price : ℕ} {mode : Bool} {v : LiquidationSequence}
    (hne : sender ∉ c.pools) (h : LiquidationSteps c env sender s totals price mode v s') :
    Posts c s s' (entry 0 0 0 0) := by
  obtain ⟨debt, coll, hseq⟩ := h.sequence
  obtain ⟨hadded, hpool, hposts⟩ := sequence_posts hseq (Added.zero _) ⟨rfl, rfl, rfl⟩
  rw [startSequence] at hpool hadded
  rw [← hpool] at hadded
  exact (hposts.then (finishLiquidation_posts hne hadded h.finished)).settle ⟨by ring, by ring, by ring, by ring⟩

/-! ### Redemption -/

theorem redeemCloseTrove_posts (h : redeemCloseTrove c s account amount = .ok s') :
    Posts c s s' (entry 0 (-amount) 0 0) := by
  obtain ⟨s₁, h1, h⟩ := bind_ok.1 h
  have hsent := sendWSTETH_posts h (Ne.symm c.ne.2.2.1)
  rw [amountIf_self] at hsent
  exact ((accountSurplus_posts h1).then hsent).settle ⟨by ring, by ring, by ring, by ring⟩

/-- a redeemed trove leaves what is drawn and what is redeemed in the Active Pool -/
theorem redeemCollateralFromTrove_posts {price maxSIMamount : ℕ} {hint : PartialRedemptionHint}
    {w : SingleRedemptionValues} (h : redeemCollateralFromTrove c s b maxSIMamount price hint = .ok (s', w)) :
    (w.cancelledPartial = true ∧ s' = s) ∨
      w.cancelledPartial = false ∧ Posts c s s' (entry 0 w.WSTETHLot w.SIMLot 0) := by
  obtain ⟨⟨-, -, -, hle⟩, ⟨hnot, hall, s₁, s₂, h1, h2, h3⟩ | ⟨hlt, NICR, -, ⟨hcan, hs, -⟩ | ⟨hnot, -, -, hedit⟩⟩⟩ :=
    redeemCollateralFromTrove_ok h
  · refine .inr ⟨hnot, ((closed_posts (shut_closed h1 h2)).then (redeemCloseTrove_posts h3)).settle
      ⟨by ring, by omega, by omega, by ring⟩⟩
  · exact .inl ⟨hcan, hs⟩
  · exact .inr ⟨hnot, (edited_posts hedit).settle ⟨rfl, by omega, by omega, rfl⟩⟩

theorem redeemLoop_posts {price rounds : ℕ} {hint : PartialRedemptionHint} {t t' : RedemptionTotals} {user : Address}
    (h : redeemLoop c price hint rounds user t = .ok t') :
    Posts c t.s t'.s
      (entry 0 (t'.totalWSTETHDrawn - t.totalWSTETHDrawn) (t'.totalSIMToRedeem - t.totalSIMToRedeem) 0) := by
  refine redeemLoop_rel (R := fun t t' => Posts c t.s t'.s
      (entry 0 (t'.totalWSTETHDrawn - t.totalWSTETHDrawn) (t'.totalSIMToRedeem - t.totalSIMToRedeem) 0))
    (fun _ => (Posts.refl c _).zero.settle ⟨rfl, by ring, by ring, rfl⟩)
    (fun h h' => (h.then h').settle ⟨by ring, by ring, by ring, by ring⟩) (fun hround => ?_) h
  have hsettle := settlePendingRewards_posts hround.settled
  rcases redeemCollateralFromTrove_posts hround.redeemed with ⟨hcan, rfl⟩ | ⟨hnot, hposts⟩
  · obtain ⟨-, rfl⟩ := hround.counted.resolve_right fun h => by simp [hcan] at h
    exact hsettle.settle ⟨rfl, by ring, by ring, rfl⟩
  · obtain ⟨-, -, rfl⟩ := hround.counted.resolve_left fun h => by simp [hnot] at h
    refine (hsettle.then hposts).settle ⟨by ring, ?_, ?_, by ring⟩ <;>
      · push_cast
        ring

theorem finishRedemption_posts {price maxFee supply : ℕ} {t : RedemptionTotals} (hne : sender ∉ c.pools)
    (h : finishRedemption c env sender price maxFee supply t = .ok s') :
    Posts c t.s s' (entry 0 (-t.totalWSTETHDrawn) (-t.totalSIMToRedeem) 0) := by
  simp only [Config.pools, List.mem_cons, List.not_mem_nil, or_false, not_or] at hne
  have hve := c.wstETHVeDistributor_outside
  simp only [List.mem_cons, List.not_mem_nil, or_false, not_or] at hve
  obtain ⟨fee, s₁, s₂, s₃, s₄, hs⟩ := finishRedemption_ok h
  have hrate : Posts c t.s s₁ (entry 0 0 0 0) := by
    obtain ⟨r, time, rfl⟩ := hs.rate
    refine Posts.zero (Posts.unseen ?_ ?_ ?_ ?_ ?_ ?_ ?_) <;> rfl
  have hfee := sendWSTETH_posts hs.feeSent hve.1
  rw [amountIf_ne (Ne.symm hve.2.2.2)] at hfee
  have hburn : Posts c s₂ s₃ (entry (-t.totalSIMToRedeem) 0 0 0) := by
    obtain ⟨u, hu, rfl⟩ := SIMToken.burn_ok hs.burned
    exact burn_posts_outside hu fun e => absurd e hne.2.2.1
  have hsent := sendWSTETH_posts hs.paid hne.1
  rw [amountIf_ne (Ne.symm hne.2.2.2)] at hsent
  refine ((((hrate.then hfee).then hburn).then (decreaseSIMDebt_posts hs.cancelled)).then hsent).settle
    ⟨by ring, ?_, by ring, by ring⟩
  rw [Nat.cast_sub hs.fee_le]
  ring

theorem redeemCollateral_posts {args : RedeemArgs} (hne : sender ∉ c.pools)
    (h : redeemCollateral c env sender s args = .ok s') : Posts c s s' (entry 0 0 0 0) := by
  obtain ⟨price, supply, user, t, hs⟩ := redeemCollateral_ok h
  refine ((redeemLoop_posts hs.loop).then (finishRedemption_posts hne hs.finish)).settle ⟨by ring, ?_, ?_, by ring⟩ <;>
    simp

/-! ### Borrowers -/

theorem openTrove_posts {maxFee SIMAmount : ℕ} {p n : Address} (hne : sender ∉ c.pools)
    (h : openTrove c env sender s amount maxFee SIMAmount p n = .ok s') : Posts c s s' (entry 0 0 0 0) := by
  obtain ⟨price, mode, s₁, s₂, s₃, s₄, netDebt, hs⟩ := openTrove_ok h
  obtain ⟨ICR, NICR, -, -, -, hc⟩ := hs.created
  have hreceived : Posts c s s₁ (entry 0 0 0 0) :=
    Posts.zero ((transferFromWSTETH_posts hs.received).of_eq (paidWSTETH_outside hne c.borrowerOperations_notMem))
  have hpool : sender ≠ c.stabilityPool := fun e => hne (by simp [Config.pools, e])
  exact ((((hreceived.then (chargeFee_posts hs.fee)).then (created_posts hc)).then (activePoolAddColl_posts hs.added)).then
    (issueSIM_posts hs.issued hpool)).settle ⟨by ring, by ring, by ring, by ring⟩

/-- an adjustment by the owner, or by the Stability Pool with a collateral gain -/
theorem adjust_posts {args : AdjustArgs} (hne : sender ∉ c.pools ∨ sender = c.stabilityPool ∧ sender ≠ b)
    (h : adjust c env sender s b args = .ok s') : Posts c s s' (entry 0 0 0 0) := by
  obtain ⟨price, mode, s₁, s₂, s₃, net, hs⟩ := adjust_ok h
  obtain ⟨s₄, hSIM, hColl⟩ := bind_ok.1 hs.moved
  have hgain : sender = c.stabilityPool → s.wsteth.balanceOf c.borrowerOperations ≠ 0 ∧ args.SIMChange = 0 := by
    intro e
    rcases hs.owner with ho | ⟨-, hpos, h0⟩
    · rcases hne with hne | ⟨-, hne⟩
      · exact absurd (by simp [Config.pools, e]) hne
      · exact absurd ho hne
    · exact ⟨Nat.pos_iff_ne_zero.1 hpos, h0⟩
  obtain ⟨fee, hfee⟩ := chargeFee_ok hs.fee
  have hedit := edited_posts (c := c) hs.edited
  have hmoveSIM : Posts c s₃ s₄ (entry (args.SIMChange - net) 0
      ((adjustChange c s args net).newDebt (trove s₂ b) - (trove s₂ b).debt) 0) := by
    unfold moveSIM at hSIM
    rw [adjustChange_newDebt]
    cases hup : args.isDebtIncrease with
    | true =>
      rw [if_pos (by exact hup)] at hSIM
      have hinc := hs.increase
      simp only [requireValidDebtIncrease, hup, if_true] at hinc
      obtain ⟨_, -, hinc⟩ := bind_ok.1 hinc
      have hpos : 0 < args.SIMChange := by
        unfold requireNonZeroDebtChange require at hinc
        split_ifs at hinc with hpos
        exact hpos
      have hpool : sender ≠ c.stabilityPool := fun e => by have := (hgain e).2; omega
      refine (issueSIM_posts hSIM hpool).settle ⟨rfl, rfl, ?_, rfl⟩
      rw [if_pos rfl]
      dsimp only [adjustChange]
      push_cast
      ring
    | false =>
      rw [if_neg (by simp [adjustChange, hup])] at hSIM
      have hnet : net = args.SIMChange := by rw [hfee.netDebt, hfee.free (by simp [hup]), Nat.add_zero]
      have hle := hs.decrease hup
      refine (burnSIM_posts hSIM fun e => (hgain e).2).settle ⟨by omega, rfl, ?_, rfl⟩
      rw [if_neg (by simp)]
      omega
  have hmoveColl : Posts c s₄ s' (entry 0
      ((adjustChange c s args net).newColl (trove s₂ b) - (trove s₂ b).coll) 0 0) := by
    unfold moveColl at hColl
    by_cases hbal : s.wsteth.balanceOf c.borrowerOperations = 0
    · have hnotPool : sender ≠ c.stabilityPool := fun e => (hgain e).1 hbal
      have hout : sender ∉ c.pools := hne.resolve_right fun e => hnotPool e.1
      simp only [Config.pools, List.mem_cons, List.not_mem_nil, or_false, not_or] at hout
      have hchange : adjustChange c s args net = ⟨args.collWithdrawal, false, net, args.isDebtIncrease⟩ := by
        simp [adjustChange, getCollChange, hbal]
      have hle := hs.withdrawal
      rw [hchange] at hColl ⊢
      have hsent := sendWSTETH_posts hColl hout.1
      rw [amountIf_ne (Ne.symm hout.2.2.2)] at hsent
      refine hsent.settle ⟨rfl, ?_, rfl, rfl⟩
      dsimp only [TroveChange.newColl, after]
      rw [if_neg (by simp)]
      omega
    · have hchange : adjustChange c s args net =
          ⟨s.wsteth.balanceOf c.borrowerOperations, true, net, args.isDebtIncrease⟩ := by
        simp [adjustChange, getCollChange, hbal]
      rw [hchange] at hColl ⊢
      refine (activePoolAddColl_posts hColl).settle ⟨rfl, ?_, rfl, rfl⟩
      dsimp only [TroveChange.newColl, after]
      rw [if_pos rfl]
      push_cast
      ring
  exact (((((settlePendingRewards_posts hs.settled).then (chargeFee_posts hs.fee)).then hedit).then hmoveSIM).then
    hmoveColl).settle ⟨by ring, by ring, by ring, by ring⟩

theorem closeTrove_posts (hne : sender ∉ c.pools) (h : BorrowerOperations.closeTrove c env sender s = .ok s') :
    Posts c s s' (entry 0 0 0 0) := by
  obtain ⟨price, s₁, s₂, s₃, s₄, hs⟩ := closeTrove_ok h
  simp only [Config.pools, List.mem_cons, List.not_mem_nil, or_false, not_or] at hne
  have hsent := sendWSTETH_posts hs.sent hne.1
  rw [amountIf_ne (Ne.symm hne.2.2.2)] at hsent
  exact ((((settlePendingRewards_posts hs.settled).then (closed_posts (shut_closed hs.unstaked hs.shut))).then
    (burnSIM_posts hs.burned fun e => absurd e hne.2.2.1)).then hsent).settle ⟨by ring, by ring, by ring, by ring⟩

/-! ### Depositors -/

/-- a collateral gain that is still in the pool -/
def owed (gain : ℕ) : Book → ℤ
  | .stabilityPool => gain
  | _ => 0

theorem sendGain_posts (h : StabilityPool.sendGain c s account amount = .ok s') (hne : account ∉ c.pools) :
    Posts c s s' (-owed amount) := by
  unfold StabilityPool.sendGain at h
  split_ifs at h with h0
  · cases h
    refine (Posts.refl c s).of_eq fun k => ?_
    cases k <;> simp [owed, h0]
  · simp only [Config.pools, List.mem_cons, List.not_mem_nil, or_false, not_or] at hne
    obtain ⟨-, g2, -, g4, -, g6⟩ := c.ne
    refine (transferWSTETH_posts h).of_eq fun k => ?_
    cases k <;> simp only [paidWSTETH, owed, Pi.neg_apply, amountIf_self, amountIf_ne (Ne.symm hne.1),
      amountIf_ne (Ne.symm hne.2.1), amountIf_ne (Ne.symm hne.2.2.1), amountIf_ne (Ne.symm hne.2.2.2), amountIf_ne g2,
      amountIf_ne g4, amountIf_ne (Ne.symm g6), sub_zero, zero_sub, neg_zero]

/-- the pool's own records after a depositor's call, and the SIM that came or went -/
theorem deposit_posts {pool : SimContracts.StabilityPool.Pool} {t : ERC20} {gain : ℕ}
    (ht : s.sim.transfer src dst amount = .ok t) (hgain : pool.WSTETH + gain = s.stabilityPool.WSTETH)
    (htotal : (pool.totalSIMDeposits : ℤ) = s.stabilityPool.totalSIMDeposits +
      (amountIf c.stabilityPool dst amount - amountIf c.stabilityPool src amount)) :
    Posts c s { s with sim := t, stabilityPool := pool } (owed gain) := by
  intro hs
  obtain ⟨hs', hk⟩ := sim_posts (c := c) ht hs
  refine ⟨⟨hs'.wsteth, hs'.sim, hs'.supply⟩, fun k => ?_⟩
  have hgap := hk k
  cases k <;> simp only [gap, paidSIM, owed] at hgap ⊢ <;> omega

theorem provideToSP_posts (hne : sender ∉ c.pools) (h : StabilityPool.provideToSP c env sender s amount = .ok s') :
    Posts c s s' (entry 0 0 0 0) := by
  obtain ⟨issued, pool, payout, s₁, hs⟩ := StabilityPool.provideToSP_ok h
  have hpaid := hs.paid
  obtain ⟨t, ht, rfl⟩ := SIMToken.sendToPool_ok hs.received
  obtain ⟨x, hstep⟩ := SimContracts.StabilityPool.provideToSP_ok hs.called
  have hpool : c.stabilityPool ≠ sender := fun e => hne (by simp [Config.pools, e])
  have hdeposit := deposit_posts (c := c) ht hstep.coll (by
    rw [amountIf_self, amountIf_ne hpool]
    have := hstep.total
    omega)
  exact ((hdeposit.trans (sendGain_posts hpaid hne)).of_eq fun k => by simp).zero

theorem withdrawFromSP_posts (hne : sender ∉ c.pools)
    (h : StabilityPool.withdrawFromSP c env sender s amount = .ok s') : Posts c s s' (entry 0 0 0 0) := by
  obtain ⟨ICR, issued, pool, payout, s₁, hs⟩ := StabilityPool.withdrawFromSP_ok h
  obtain ⟨x, hmin, hstep⟩ := SimContracts.StabilityPool.withdrawFromSP_ok hs.called
  have hpool : c.stabilityPool ≠ sender := fun e => hne (by simp [Config.pools, e])
  have htotal : pool.totalSIMDeposits + payout.sim = s.stabilityPool.totalSIMDeposits := by
    have := hstep.total
    omega
  have hdeposit : Posts c s { s₁ with stabilityPool := pool } (owed payout.wsteth) := by
    have hsent := hs.sent
    unfold StabilityPool.sendSIM at hsent
    split_ifs at hsent with h0
    · cases hsent
      have hgain := hstep.coll
      refine Posts.of_gaps rfl rfl fun k => ?_
      cases k <;> simp only [gap, owed] <;> omega
    · obtain ⟨t, ht, rfl⟩ := SIMToken.returnFromPool_ok hsent
      refine deposit_posts ht hstep.coll ?_
      rw [amountIf_self, amountIf_ne hpool]
      omega
  exact ((hdeposit.trans (sendGain_posts hs.paid hne)).of_eq fun k => by simp).zero

theorem withdrawWSTETHGainToTrove_posts {p n : Address} (hne : sender ∉ c.pools)
    (h : StabilityPool.withdrawWSTETHGainToTrove c env sender s p n = .ok s') : Posts c s s' (entry 0 0 0 0) := by
  obtain ⟨pool, t, s₁, htotal, hgain, ht, rfl, h⟩ := withdrawWSTETHGainToTrove_ok h
  have hpool : c.stabilityPool ≠ sender := fun e => hne (by simp [Config.pools, e])
  have hbo := c.borrowerOperations_notMem
  simp only [Config.pools, List.mem_cons, List.not_mem_nil, or_false, not_or] at hbo
  obtain ⟨-, g2, -, g4, -, g6⟩ := c.ne
  have hsent : Posts c s { s with stabilityPool := pool, wsteth := t } (entry 0 0 0 0) := by
    intro hs
    obtain ⟨hs', hk⟩ := wsteth_posts (c := c) ht hs
    refine ⟨⟨hs'.wsteth, hs'.sim, hs'.supply⟩, fun k => ?_⟩
    have hgap := hk k
    cases k <;> simp only [gap, entry, paidWSTETH, amountIf_self, amountIf_ne (Ne.symm hbo.1),
      amountIf_ne (Ne.symm hbo.2.1), amountIf_ne (Ne.symm hbo.2.2.1), amountIf_ne (Ne.symm hbo.2.2.2), amountIf_ne g2,
      amountIf_ne g4, amountIf_ne (Ne.symm g6)] at hgap ⊢ <;> omega
  exact (hsent.then (adjust_posts (.inr ⟨rfl, hpool⟩) h)).settle ⟨by ring, by ring, by ring, by ring⟩

/-! ## Balanced books -/

/-- every tracker stands for what it should, and the pools hold at least the collateral they record -/
structure Balanced (c : Config) (s : System) : Prop where
  sound : Sound c s
  peg : gap c s .peg = 0
  coll : gap c s .coll = 0
  debt : gap c s .debt = 0
  surplus : gap c s .surplus = 0
  deposits : gap c s .deposits = 0
  covered : ∀ k, 0 ≤ gap c s k

theorem init_balanced (c : Config) : Balanced c (init c) := by
  have hgap : ∀ k, gap c (init c) k = 0 := by
    intro k
    cases k <;> simp [gap, init, ERC20.empty, SimContracts.StabilityPool.init]
  exact ⟨⟨fun _ _ _ => rfl, fun _ => rfl, by simp [init, ERC20.empty]⟩, hgap _, hgap _, hgap _, hgap _, hgap _,
    fun k => (hgap k).ge⟩

theorem Posts.balanced {δ : Book → ℤ} (h : Posts c s s' δ) (hs : Balanced c s)
    (hexact : δ .peg = 0 ∧ δ .coll = 0 ∧ δ .debt = 0 ∧ δ .surplus = 0 ∧ δ .deposits = 0) (hpos : ∀ k, 0 ≤ δ k) :
    Balanced c s' := by
  obtain ⟨hs', hk⟩ := h hs.sound
  obtain ⟨h1, h2, h3, h4, h5⟩ := hexact
  refine ⟨hs', ?_, ?_, ?_, ?_, ?_, fun k => ?_⟩
  · rw [hk, h1, hs.peg]
    rfl
  · rw [hk, h2, hs.coll]
    rfl
  · rw [hk, h3, hs.debt]
    rfl
  · rw [hk, h4, hs.surplus]
    rfl
  · rw [hk, h5, hs.deposits]
    rfl
  · rw [hk]
    exact add_nonneg (hs.covered k) (hpos k)

/-- entries that cancel out -/
theorem Posts.balanced_zero (h : Posts c s s' (entry 0 0 0 0)) (hs : Balanced c s) : Balanced c s' :=
  h.balanced hs ⟨rfl, rfl, rfl, rfl, rfl⟩ fun k => by cases k <;> exact le_rfl

theorem amountIf_nonneg (x y : Address) (amount : ℕ) : 0 ≤ amountIf x y amount := by
  unfold amountIf
  split_ifs
  · exact Int.natCast_nonneg _
  · exact le_rfl

/-- a gift leaves the pool with more than it records -/
theorem gift_balanced (h : Posts c s s' (paidWSTETH c src dst amount)) (hs : Balanced c s)
    (hsrc : src ∉ c.pools ∨ amount = 0) : Balanced c s' := by
  have hzero : ∀ p ∈ c.pools, amountIf p src amount = 0 := by
    intro p hp
    rcases hsrc with hsrc | rfl
    · have hpsrc : p ≠ src := fun e => hsrc (e ▸ hp)
      exact amountIf_ne hpsrc amount
    · exact amountIf_zero _ _
  refine h.balanced hs ⟨rfl, rfl, rfl, rfl, rfl⟩ fun k => ?_
  cases k <;> simp only [paidWSTETH, hzero _ (by simp [Config.pools] : c.activePool ∈ c.pools),
    hzero _ (by simp [Config.pools] : c.defaultPool ∈ c.pools), hzero _ (by simp [Config.pools] : c.stabilityPool ∈ c.pools),
    hzero _ (by simp [Config.pools] : c.collSurplusPool ∈ c.pools), sub_zero, le_refl, amountIf_nonneg]

/-- wstETH of an account that is no pool -/
theorem outside_balanced {t : ERC20} (hs : Balanced c s) (hbal : ∀ p ∈ c.pools, t.balanceOf p = s.wsteth.balanceOf p)
    (hal : ∀ p ∈ c.pools, t.allowance p = s.wsteth.allowance p) : Balanced c { s with wsteth := t } := by
  have hposts : Posts c s { s with wsteth := t } (entry 0 0 0 0) := by
    intro h
    refine ⟨⟨fun p hp x => by rw [hal p hp]; exact h.wsteth p hp x, h.sim, h.supply⟩, fun k => ?_⟩
    cases k <;> simp only [gap, entry, add_zero, hbal _ (by simp [Config.pools] : c.activePool ∈ c.pools),
      hbal _ (by simp [Config.pools] : c.defaultPool ∈ c.pools), hbal _ (by simp [Config.pools] : c.stabilityPool ∈ c.pools),
      hbal _ (by simp [Config.pools] : c.collSurplusPool ∈ c.pools)]
  exact hposts.balanced_zero hs

/-- **Every transaction keeps the books balanced.** -/
theorem exec_balanced {tx : Tx c} (hs : Balanced c s) (h : exec c s tx = .ok s') : Balanced c s' := by
  obtain ⟨env, sender, call⟩ := tx
  have hne := sender.notMem_pools
  have hpool : sender.address ≠ c.stabilityPool := fun e => hne (by simp [Config.pools, e])
  have howner : ∀ p ∈ c.pools, p ≠ sender.address := fun p hp e => hne (e ▸ hp)
  unfold exec at h
  cases call with
  | openTrove amount maxFee SIMAmount p n => exact (openTrove_posts hne h).balanced_zero hs
  | addColl amount p n =>
    obtain ⟨s₁, h1, h⟩ := bind_ok.1 h
    exact (adjust_posts (.inl hne) h).balanced_zero (gift_balanced (transferFromWSTETH_posts h1) hs (.inl hne))
  | withdrawColl w p n => exact (adjust_posts (.inl hne) h).balanced_zero hs
  | withdrawSIM maxFee SIMAmount p n => exact (adjust_posts (.inl hne) h).balanced_zero hs
  | repaySIM SIMAmount p n => exact (adjust_posts (.inl hne) h).balanced_zero hs
  | adjustTrove amount args =>
    obtain ⟨s₁, h1, h⟩ := bind_ok.1 h
    refine (adjust_posts (.inl hne) h).balanced_zero ?_
    unfold receiveColl at h1
    split_ifs at h1
    · exact gift_balanced (transferFromWSTETH_posts h1) hs (.inl hne)
    · cases h1
      exact hs
  | closeTrove => exact (closeTrove_posts hne h).balanced_zero hs
  | claimCollateral => exact (claimColl_posts h hne).zero.balanced_zero hs
  | liquidate borrower =>
    obtain ⟨price, mode, v, hl⟩ := liquidate_ok h
    exact (liquidation_posts hne hl).balanced_zero hs
  | liquidateTroves n =>
    obtain ⟨price, mode, v, hl⟩ := liquidateTroves_ok h
    exact (liquidation_posts hne hl).balanced_zero hs
  | batchLiquidateTroves troveArray =>
    obtain ⟨price, mode, v, hl⟩ := batchLiquidateTroves_ok h
    exact (liquidation_posts hne hl).balanced_zero hs
  | redeemCollateral args => exact (redeemCollateral_posts hne h).balanced_zero hs
  | provideToSP amount => exact (provideToSP_posts hne h).balanced_zero hs
  | withdrawFromSP amount => exact (withdrawFromSP_posts hne h).balanced_zero hs
  | withdrawWSTETHGainToTrove p n => exact (withdrawWSTETHGainToTrove_posts hne h).balanced_zero hs
  | transferSIM recipient amount =>
    obtain ⟨hdst, t, ht, rfl⟩ := SIMToken.transfer_ok h
    refine Posts.balanced_zero (Posts.zero ((sim_posts ht).of_eq fun k => ?_)) hs
    cases k <;> simp [paidSIM, amountIf_ne (Ne.symm hdst), amountIf_ne (Ne.symm hpool)]
  | transferFromSIM src recipient amount =>
    obtain ⟨hdst, t, ht, rfl⟩ := SIMToken.transferFrom_ok h
    exact (sim_transferFrom_posts ht hdst).zero.balanced_zero hs
  | transferWSTETH recipient amount => exact gift_balanced (transferWSTETH_posts h) hs (.inl hne)
  | transferFromWSTETH src recipient amount =>
    refine gift_balanced (transferFromWSTETH_posts h) hs ?_
    by_cases hsrc : src ∈ c.pools
    · obtain ⟨t, ht, -⟩ := transferFromWSTETH_ok h
      exact .inr ((ERC20.transferFrom_unapproved ht (hs.sound.wsteth src hsrc)).2.2 rfl)
    · exact .inl hsrc
  | approveSIM spender amount =>
    obtain ⟨t, ht, h⟩ := bind_ok.1 h
    cases h
    obtain ⟨hbal, hsupply, hal⟩ := ERC20.approve_ok ht
    have hposts : Posts c s { s with sim := t } (entry 0 0 0 0) := by
      intro hsound
      refine ⟨⟨hsound.wsteth, fun x => ?_, ?_⟩, fun k => ?_⟩
      · rw [hal, Function.update_of_ne (Ne.symm hpool)]
        exact hsound.sim x
      · simp only [hbal, hsupply]
        exact hsound.supply
      · cases k <;> simp only [gap, entry, hbal, hsupply, add_zero]
    exact hposts.balanced_zero hs
  | approveWSTETH spender amount =>
    obtain ⟨t, ht, h⟩ := bind_ok.1 h
    cases h
    obtain ⟨hbal, -, hal⟩ := ERC20.approve_ok ht
    refine outside_balanced hs (fun p _ => by rw [hbal]) fun p hp => ?_
    rw [hal, Function.update_of_ne (howner p hp)]
  | mintWSTETH amount =>
    obtain ⟨t, ht, h⟩ := bind_ok.1 h
    cases h
    obtain ⟨-, hal, hbal⟩ := ERC20.mint_ok ht
    refine outside_balanced hs (fun p hp => ?_) fun p _ => by rw [hal]
    rw [hbal, Function.update_of_ne (howner p hp)]
  | burnWSTETH amount =>
    obtain ⟨t, ht, h⟩ := bind_ok.1 h
    cases h
    obtain ⟨-, -, hal, hbal⟩ := ERC20.burn_ok ht
    refine outside_balanced hs (fun p hp => ?_) fun p _ => by rw [hal]
    rw [hbal, Function.update_of_ne (howner p hp)]

theorem reached_balanced (calls : List (Tx c)) : Balanced c (reached c calls) :=
  run_inv (exec c) (P := fun _ _ => True) (fun _ _ _ h _ => exec_balanced h) _ calls (init_balanced c)
    (along_true (exec c) _ calls)

/-- nobody holds more SIM than there is debt -/
theorem Balanced.balance_le (h : Balanced c s) {supply : ℕ} (hsupply : getEntireSystemDebt s = .ok supply) (a : Address) :
    s.sim.balanceOf a ≤ supply := by
  have hpeg := h.peg
  simp only [gap] at hpeg
  have hle := Ledger.le_sum s.sim.balanceOf a
  have htotal := h.sound.supply
  obtain ⟨-, hsum⟩ := uadd_ok.1 hsupply
  omega

/-! ## Results -/

/-- **Every SIM in existence is matched by recorded debt**, after any calls; so the assertion of `redeemCollateral` about
the redeemer's balance cannot fail. -/
theorem debt_backs_supply (c : Config) (calls : List (Tx c)) :
    let s := reached c calls
    s.sim.totalSupply = s.activePool.SIMDebt + s.defaultPool.SIMDebt ∧
      ∀ redeemer totalSIMSupplyAtStart, getEntireSystemDebt s = .ok totalSIMSupplyAtStart →
        assert (s.sim.balanceOf redeemer ≤ totalSIMSupplyAtStart) = .ok () := by
  intro s
  have h : Balanced c s := reached_balanced calls
  have hpeg : s.sim.totalSupply = s.activePool.SIMDebt + s.defaultPool.SIMDebt := by
    have := h.peg
    simp only [gap] at this
    omega
  exact ⟨hpeg, fun redeemer supply hsupply => if_pos (h.balance_le hsupply redeemer)⟩

/-- **The trackers of the pools equal what they stand for** after any calls: the collateral and debt of the active
troves, the claimable surpluses, the deposits; and each pool holds at least the collateral it records. -/
theorem trackers_agree (c : Config) (calls : List (Tx c)) :
    let s := reached c calls
    s.activePool.WSTETH = ∑ a with (trove s a).status = .active, (trove s a).coll ∧
      s.activePool.SIMDebt = ∑ a with (trove s a).status = .active, (trove s a).debt ∧
      s.collSurplusPool.WSTETH = ∑ a, s.collSurplusPool.balances a ∧
      s.sim.balanceOf c.stabilityPool = s.stabilityPool.totalSIMDeposits ∧
      s.activePool.WSTETH ≤ s.wsteth.balanceOf c.activePool ∧
      s.defaultPool.WSTETH ≤ s.wsteth.balanceOf c.defaultPool ∧
      s.stabilityPool.WSTETH ≤ s.wsteth.balanceOf c.stabilityPool ∧
      s.collSurplusPool.WSTETH ≤ s.wsteth.balanceOf c.collSurplusPool := by
  intro s
  have h : Balanced c s := reached_balanced calls
  have hreg : Registry s := reached_registry calls
  have hcoll := h.coll
  have hdebt := h.debt
  have hsurplus := h.surplus
  have hdeposits := h.deposits
  have hactive := h.covered .activePool
  have hdefault := h.covered .defaultPool
  have hstability := h.covered .stabilityPool
  have hcollSurplus := h.covered .collSurplusPool
  rw [← sum_active (s := s) (·.coll) fun a ha => (hreg.idle a ha).1,
    ← sum_active (s := s) (·.debt) fun a ha => (hreg.idle a ha).2.1]
  simp only [gap] at hcoll hdebt hsurplus hdeposits hactive hdefault hstability hcollSurplus
  refine ⟨?_, ?_, ?_, ?_, ?_, ?_, ?_, ?_⟩ <;> (try simp only [trove]) <;> omega

end SimContracts.Protocol
