/-
The portions of `System.paid` are paid in reward tokens. `paid` is a ghost, so on its own it says nothing about tokens; here
the transfers of a call are listed, each with the NFT it is for, and the balances of the reward token are compared with them.

A claim transfers the sum of the weeks it adds to `paid`, from the distributor to the owner the NFT has at that moment. No
balance changes otherwise, but for the rewards that arrive.

Results:
  exec_booked     the transfers of a call explain every balance, and those for an NFT are its new portions
  paid_eq_weeks   after any calls in the order of time, what was transferred for an NFT is its share of every week from its
                  first one up to its cursor, once each
-/
import SimContracts.VeDistributor.Schedule

namespace SimContracts.VeDistributor

open Solidity Ve

/-! ## Transfers -/

/-- reward tokens that move, with the NFT they are paid for -/
structure Transfer where
  nft : Option ℕ
  src : Address
  dst : Address
  amount : ℕ
deriving DecidableEq

/-- what is paid to the owners of NFTs that are claimed one after the other -/
def payments (self : Address) (lastTokenTime : ℕ) : List ℕ → System → List Transfer
  | [], _ => []
  | id :: ids, s =>
    match claimAndPay self s id lastTokenTime with
    | .ok (s', amount) => ⟨some id, self, s.ve.idToOwner id, amount⟩ :: payments self lastTokenTime ids s'
    | .error _ => []

/-- what a claim of NFTs pays, after the supply is checkpointed -/
def claimPayments (self : Address) (s : System) (env : Env) (ids : List ℕ) : List Transfer :=
  match checkpointIfDue s env with
  | .ok s => payments self (s.dist.lastTokenTime / WEEK * WEEK) ids s
  | .error _ => []

/-- the transfers of a call; id 0 ends a claim of many -/
def transfers (self : Address) (s : System) (c : Env × Call) : List Transfer :=
  match c.2 with
  | .claim id => claimPayments self s c.1 [id]
  | .claimMany ids => claimPayments self s c.1 (ids.takeWhile (· ≠ 0))
  | .fund src amount => [⟨none, src, self, amount⟩]
  | _ => []

/-- the amounts of the transfers that meet `p` -/
def moved (p : Transfer → Prop) [DecidablePred p] (xs : List Transfer) : ℕ := ((xs.filter p).map (·.amount)).sum

def sentBy (xs : List Transfer) (a : Address) : ℕ := moved (·.src = a) xs
def sentTo (xs : List Transfer) (a : Address) : ℕ := moved (·.dst = a) xs
def paidFor (xs : List Transfer) (id : ℕ) : ℕ := moved (·.nft = some id) xs

section Moved

variable (p : Transfer → Prop) [DecidablePred p]

theorem moved_append (xs ys : List Transfer) : moved p (xs ++ ys) = moved p xs + moved p ys := by
  simp [moved, List.filter_append]

theorem moved_single (x : Transfer) : moved p [x] = if p x then x.amount else 0 := by
  unfold moved
  split_ifs with h <;> simp [h]

end Moved

variable {cfg : Config} {self : Address} {s s₁ s' : System} {xs ys : List Transfer} {env : Env} {now : ℕ}

/-- what the portions of an NFT come to -/
def System.paidTo (s : System) (id : ℕ) : ℕ := ((s.paid.filter (·.id = id)).map (·.amount)).sum

/-! ## The transfers explain the balances -/

/-- between two states the reward token moved by the transfers `xs`, and what moved for an NFT was added to its portions -/
structure Booked (s s' : System) (xs : List Transfer) : Prop where
  balance : ∀ a, s'.rewardToken.balanceOf a + sentBy xs a = s.rewardToken.balanceOf a + sentTo xs a
  portions : ∀ id, s'.paidTo id = s.paidTo id + paidFor xs id

/-- nothing moves where neither the token nor the portions change -/
theorem Booked.frame (htoken : s'.rewardToken = s.rewardToken) (hpaid : s'.paid = s.paid) : Booked s s' [] :=
  ⟨fun a => by rw [htoken]; rfl, fun id => by rw [System.paidTo, hpaid]; rfl⟩

theorem Booked.trans (h : Booked s s₁ xs) (h' : Booked s₁ s' ys) : Booked s s' (xs ++ ys) := by
  refine ⟨fun a => ?_, fun id => ?_⟩
  · have h1 := h.balance a
    have h2 := h'.balance a
    simp only [sentBy, sentTo, moved_append] at h1 h2 ⊢
    omega
  · rw [h'.portions, h.portions, paidFor, paidFor, paidFor, moved_append, Nat.add_assoc]

/-- a claim pays its portions to the owner of the NFT -/
theorem claimAndPay_booked {id lastTokenTime amount : ℕ} (h : claimAndPay self s id lastTokenTime = .ok (s', amount))
    (hs : Schedule now s) : Booked s s' [⟨some id, self, s.ve.idToOwner id, amount⟩] := by
  obtain ⟨ps, hpaid, hids, hamount⟩ := claimAndPay_amount h hs
  obtain ⟨⟨d₁, r⟩, hc, h⟩ := bind_ok.1 h
  obtain ⟨s₁, hp, h⟩ := bind_ok.1 h
  cases h
  obtain ⟨token, rfl, hmoves⟩ := payOwner_ok hp
  refine ⟨fun a => ?_, fun i => ?_⟩
  · have := hmoves a
    simp only [sentBy, sentTo, moved_single, @eq_comm _ _ a]
    exact this
  · rw [System.paidTo, hpaid, List.filter_append, List.map_append, List.sum_append, paidFor, moved_single]
    congr 1
    by_cases hi : id = i
    · subst hi
      have hall : ps.filter (·.id = id) = ps := List.filter_eq_self.2 fun p hp => by simpa using hids p hp
      rw [hall, if_pos rfl, hamount]
    · have hnone : ps.filter (·.id = i) = [] := List.filter_eq_nil_iff.2 fun p hp => by simpa [hids p hp] using hi
      rw [hnone, if_neg (by simpa using hi)]
      rfl

theorem claimEach_booked (ids : List ℕ) {total total' : ℕ}
    (h : claimEach self (s.dist.lastTokenTime / WEEK * WEEK) ids s total = .ok (s', total')) (hs : Schedule now s) :
    Booked s s' (payments self (s.dist.lastTokenTime / WEEK * WEEK) (ids.takeWhile (· ≠ 0)) s) := by
  induction ids generalizing s total with
  | nil =>
    cases h
    exact .frame rfl rfl
  | cons id ids ih =>
    rw [claimEach] at h
    split_ifs at h with hzero
    · cases h
      rw [List.takeWhile_cons_of_neg (by simpa using hzero)]
      exact .frame rfl rfl
    · obtain ⟨⟨s₁, amount⟩, hc, h⟩ := bind_ok.1 h
      simp only [uadd_bind] at h
      obtain ⟨-, h⟩ := h
      obtain ⟨hs₁, htime⟩ := claimAndPay_schedule hc hs
      rw [List.takeWhile_cons_of_pos (by simpa using hzero), payments, hc]
      rw [← htime] at h ⊢
      exact (claimAndPay_booked hc hs).trans (ih h hs₁)

/-- a checkpoint pays nothing -/
theorem checkpointIfDue_booked (h : checkpointIfDue s env = .ok s') : Booked s s' [] := by
  unfold checkpointIfDue at h
  split_ifs at h
  · obtain ⟨⟨d₁, ve₁⟩, -, h⟩ := bind_ok.1 h
    cases h
    exact .frame rfl rfl
  · cases h
    exact .frame rfl rfl

/-- the end of a claim pays nothing -/
theorem lowerIfPaid_booked {amount : ℕ} (h : (if amount ≠ 0 then lowerLastBalance s amount else pure s) = .ok s') :
    Booked s s' [] := by
  split_ifs at h
  · simp only [lowerLastBalance, usub_bind, pure_ok] at h
    obtain ⟨-, rfl⟩ := h
    exact .frame rfl rfl
  · cases h
    exact .frame rfl rfl

/-- **One call.** Every balance of the reward token changes by the call's transfers, and what is transferred for an NFT is
what its new portions come to. -/
theorem exec_booked {t : ℕ} {c : Env × Call} (h : exec cfg self s c = .ok s') (ht : t ≤ c.1.timestamp)
    (hs : Schedule t s) : Booked s s' (transfers self s c) := by
  obtain ⟨env, call⟩ := c
  cases call with
  | ve call =>
    obtain ⟨ve₁, -, ⟨⟩⟩ := bind_ok.1 h
    exact .frame rfl rfl
  | checkpoint =>
    obtain ⟨⟨d₁, ve₁⟩, -, ⟨⟩⟩ := bind_ok.1 h
    exact .frame rfl rfl
  | checkpointTotalSupply =>
    obtain ⟨⟨d₁, ve₁⟩, -, ⟨⟩⟩ := bind_ok.1 h
    exact .frame rfl rfl
  | claim id =>
    obtain ⟨s₁, h1, h⟩ := bind_ok.1 h
    obtain ⟨⟨s₂, amount⟩, h2, h⟩ := bind_ok.1 h
    have hpay := claimAndPay_booked h2 (checkpointIfDue_schedule h1 ht hs)
    simp only [transfers, claimPayments, h1, payments, h2]
    simpa using (checkpointIfDue_booked h1).trans (hpay.trans (lowerIfPaid_booked h))
  | claimMany ids =>
    obtain ⟨s₁, h1, h⟩ := bind_ok.1 h
    obtain ⟨⟨s₂, total⟩, h2, h⟩ := bind_ok.1 h
    have hpay := claimEach_booked ids h2 (checkpointIfDue_schedule h1 ht hs)
    simp only [transfers, claimPayments, h1]
    simpa using (checkpointIfDue_booked h1).trans (hpay.trans (lowerIfPaid_booked h))
  | fund src amount =>
    obtain ⟨token, htoken, ⟨⟩⟩ := bind_ok.1 h
    refine ⟨fun a => ?_, fun id => ?_⟩
    · have := ERC20.transfer_balance htoken a
      simp only [transfers, sentBy, sentTo, moved_single, @eq_comm _ _ a]
      exact this
    · rw [transfers, paidFor, moved_single, if_neg nofun]
      rfl

/-! ## Main result -/

/-- the books of claims and the transfers together -/
theorem run_booked (cfg : Config) (self : Address) (env₀ : Env) (erc20 : Address → ERC20) (shady : Address) (start : ℕ)
    (rewardToken : ERC20) (calls : List (Env × Call))
    (hcalls : calls.Pairwise fun c c' => c.1.timestamp ≤ c'.1.timestamp) :
    let s₀ := deploySystem env₀ erc20 shady start rewardToken
    ∃ t, Schedule t (run (exec cfg self) s₀ calls) ∧
      Booked s₀ (run (exec cfg self) s₀ calls) (gather (exec cfg self) (transfers self) s₀ calls) := by
  intro s₀
  refine run_timed_log (exec cfg self) (I := fun t s xs => Schedule t s ∧ Booked s₀ s xs)
    (fun _ _ _ _ hle h => ⟨h.1.mono hle, h.2⟩) ?_ calls s₀ 0
    ⟨deploySystem_schedule env₀ erc20 shady start rewardToken, .frame rfl rfl⟩ (fun _ _ => Nat.zero_le _) hcalls
  rintro t s xs c s' ⟨hs, hb⟩ ht hok
  exact ⟨exec_schedule hok ht hs, hb.trans (exec_booked hok ht hs)⟩

/-- **Claims do not depend on the schedule.** After any calls in the order of time, the reward token stands where the
transfers of the calls have moved it, and what was transferred for an NFT, from the distributor to its owner, is what its
portions come to. These are what is owed for each week from its first one up to its cursor, in order and once each, and
nothing before its first claim. So the amount paid is the sum of the floors of power times tokens over supply of these
weeks. -/
theorem paid_eq_weeks (cfg : Config) (self : Address) (env₀ : Env) (erc20 : Address → ERC20) (shady : Address) (start : ℕ)
    (rewardToken : ERC20) (calls : List (Env × Call))
    (hcalls : calls.Pairwise fun c c' => c.1.timestamp ≤ c'.1.timestamp) (id : ℕ) :
    let s₀ := deploySystem env₀ erc20 shady start rewardToken
    let s := run (exec cfg self) s₀ calls
    let xs := gather (exec cfg self) (transfers self) s₀ calls
    (∀ a, s.rewardToken.balanceOf a + sentBy xs a = rewardToken.balanceOf a + sentTo xs a) ∧
      ∃ n, (s.dist.timeCursorOf id = 0 → n = 0) ∧
        (s.dist.timeCursorOf id ≠ 0 → s.dist.timeCursorOf id = firstWeek s id + n * WEEK) ∧
        s.paid.filter (·.id = id) = (List.range n).map (fun k => owed s id (firstWeek s id + k * WEEK)) ∧
        paidFor xs id = ((s.paid.filter (·.id = id)).map (·.amount)).sum ∧
        ((s.paid.filter (·.id = id)).map (·.amount)).sum =
          ∑ k ∈ Finset.range n, (userPower s.ve id (firstWeek s id + k * WEEK)).toNat *
            s.dist.tokensPerWeek (firstWeek s id + k * WEEK) / s.dist.veSupply (firstWeek s id + k * WEEK) := by
  intro s₀ s xs
  obtain ⟨t, hs, hb⟩ := run_booked cfg self env₀ erc20 shady start rewardToken calls hcalls
  have hpaid : paidFor xs id = ((s.paid.filter (·.id = id)).map (·.amount)).sum :=
    ((hb.portions id).trans (Nat.zero_add _)).symm
  have hsum : ∀ n, s.paid.filter (·.id = id) = (List.range n).map (fun k => owed s id (firstWeek s id + k * WEEK)) →
      ((s.paid.filter (·.id = id)).map (·.amount)).sum =
        ∑ k ∈ Finset.range n, (userPower s.ve id (firstWeek s id + k * WEEK)).toNat *
          s.dist.tokensPerWeek (firstWeek s id + k * WEEK) / s.dist.veSupply (firstWeek s id + k * WEEK) := by
    intro n hn
    rw [hn, List.map_map, ← List.toFinset_range, List.sum_toFinset _ List.nodup_range]
    rfl
  refine ⟨hb.balance, ?_⟩
  by_cases h0 : s.dist.timeCursorOf id = 0
  · have hnone : s.paid.filter (·.id = id) = [] := hs.unclaimed id h0
    exact ⟨0, fun _ => rfl, fun h => absurd h0 h, hnone, hpaid, hsum 0 hnone⟩
  · obtain ⟨n, hn, hlist⟩ := hs.claimed id h0
    exact ⟨n, fun h => absurd h h0, fun _ => hn, hlist, hpaid, hsum n hlist⟩

/-- Account 1 sends rewards, and its lock of week 100 is paid for week 101, its first one: the tokens it gets are the
portion of that week, and its cursor stands after it. -/
theorem paid_eq_weeks_fairClaim :
    let s := run (exec exampleConfig 60) exampleSystem fairClaim
    let xs := gather (exec exampleConfig 60) (transfers 60) exampleSystem fairClaim
    s.dist.timeCursorOf 1 = 102 * WEEK ∧ firstWeek s 1 = 101 * WEEK ∧
      xs = [⟨none, 1, 60, 2 * 10 ^ 21⟩, ⟨some 1, 60, 1, 1999976851928399707672⟩] ∧
      (∀ a, s.rewardToken.balanceOf a + sentBy xs a = exampleReward.balanceOf a + sentTo xs a) ∧
      ∃ n, (s.dist.timeCursorOf 1 = 0 → n = 0) ∧
        (s.dist.timeCursorOf 1 ≠ 0 → s.dist.timeCursorOf 1 = firstWeek s 1 + n * WEEK) ∧
        s.paid.filter (·.id = 1) = (List.range n).map (fun k => owed s 1 (firstWeek s 1 + k * WEEK)) ∧
        paidFor xs 1 = ((s.paid.filter (·.id = 1)).map (·.amount)).sum ∧
        ((s.paid.filter (·.id = 1)).map (·.amount)).sum =
          ∑ k ∈ Finset.range n, (userPower s.ve 1 (firstWeek s 1 + k * WEEK)).toNat *
            s.dist.tokensPerWeek (firstWeek s 1 + k * WEEK) / s.dist.veSupply (firstWeek s 1 + k * WEEK) := by
  rw [exampleSystem]
  exact ⟨by decide +kernel, by decide +kernel, by decide +kernel,
    paid_eq_weeks exampleConfig 60 _ _ _ _ _ fairClaim (by decide) 1⟩

end SimContracts.VeDistributor
