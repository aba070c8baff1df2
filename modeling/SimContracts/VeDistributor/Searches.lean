/-
The four binary searches of the contracts: `findTimestampEpoch` and `findTimestampUserEpoch` of the distributor, and
`_findBlockEpoch` and the search inside `_balanceOfAtNFT` of the vote escrow. They are one loop over different keys, with
the middle rounded up in two ways. Here the loop has its checks: the sums are of 256 bits, a read can fail, and the
indices read are listed.

A round reads one index and leaves less than half of the interval. Below `2 ^ 128` the interval is used up within 128
rounds, so the limit of the loop cuts nothing off.

Results:
  searchLoop_ok    the loop ends with the result of `searchLast`, after reads inside the interval
  run_searches     after every run the searches of the global history are exact
  searches_exact   on a sorted history of less than `2 ^ 128` points each search finds the last index up to the target
-/
import SimContracts.Ve.BlockViews
import SimContracts.VeDistributor.Model

namespace SimContracts.VeDistributor

open Solidity Ve Search

/-- the search loop with the reads it makes; `carry` is 1 or 2 in `(min + max + carry) / 2` -/
def searchLoop (read : ℕ → Res ℕ) (target carry : ℕ) : ℕ → ℕ → ℕ → Res (ℕ × List ℕ)
  | 0, min, _ => .ok (min, [])
  | rounds + 1, min, max =>
    if max ≤ min then .ok (min, [])
    else do
      let sum ← uadd (← uadd min max) carry
      let mid := sum / 2
      let key ← read mid
      if key ≤ target then do
        let (found, reads) ← searchLoop read target carry rounds mid max
        pure (found, mid :: reads)
      else do
        let below ← usub mid 1
        let (found, reads) ← searchLoop read target carry rounds min below
        pure (found, mid :: reads)

variable {key : ℕ → ℕ} {target carry : ℕ}

/-- the loop uses up an interval shorter than `2 ^ enough` within `enough` rounds, if it may run as many -/
theorem searchLoop_ok {read : ℕ → Res ℕ} (hcarry : carry = 1 ∨ carry = 2) (enough rounds lo hi : ℕ) (hle : lo ≤ hi)
    (hfits : hi < 2 ^ 128) (hlen : hi - lo < 2 ^ enough) (hrounds : enough ≤ rounds)
    (hread : ∀ i, i ≤ hi → read i = .ok (key i)) :
    ∃ reads, searchLoop read target carry rounds lo hi = .ok (searchLast key target carry rounds lo hi, reads) ∧
      reads.length ≤ enough ∧ ∀ i ∈ reads, i ≤ hi := by
  induction rounds generalizing lo hi enough with
  | zero => exact ⟨[], rfl, Nat.zero_le _, by simp⟩
  | succ rounds ih =>
    rw [searchLoop, searchLast]
    by_cases hstop : hi ≤ lo
    · rw [if_pos hstop, if_pos hstop]
      exact ⟨[], rfl, Nat.zero_le _, by simp⟩
    obtain ⟨less, rfl⟩ : ∃ less, enough = less + 1 := by
      cases enough with
      | zero =>
        simp at hlen
        omega
      | succ less => exact ⟨less, rfl⟩
    rw [pow_succ'] at hlen
    have hsum : uadd lo hi = .ok (lo + hi) := uadd_ok.2 ⟨by omega, rfl⟩
    have hsum' : uadd (lo + hi) carry = .ok (lo + hi + carry) := uadd_ok.2 ⟨by omega, rfl⟩
    have hmid : lo < (lo + hi + carry) / 2 ∧ (lo + hi + carry) / 2 ≤ hi := by omega
    rw [if_neg hstop, if_neg hstop, hsum, ok_bind, hsum', ok_bind]
    dsimp only
    rw [hread _ hmid.2, ok_bind]
    by_cases hkey : key ((lo + hi + carry) / 2) ≤ target
    · -- the middle is at most the target: continue above it
      obtain ⟨reads, hloop, hlength, hreads⟩ := ih less ((lo + hi + carry) / 2) hi hmid.2 hfits (by omega) (by omega) hread
      rw [if_pos hkey, if_pos hkey, hloop]
      refine ⟨_, rfl, Nat.succ_le_succ hlength, ?_⟩
      exact List.forall_mem_cons.2 ⟨hmid.2, hreads⟩
    · have hbelow : usub ((lo + hi + carry) / 2) 1 = .ok ((lo + hi + carry) / 2 - 1) := usub_ok.2 ⟨by omega, rfl⟩
      obtain ⟨reads, hloop, hlength, hreads⟩ := ih less lo ((lo + hi + carry) / 2 - 1) (by omega) (by omega) (by omega)
        (by omega) fun i hi' => hread i (by omega)
      rw [if_neg hkey, if_neg hkey, hbelow, ok_bind, hloop]
      refine ⟨_, rfl, Nat.succ_le_succ hlength, ?_⟩
      refine List.forall_mem_cons.2 ⟨hmid.2, fun i hi' => ?_⟩
      have := hreads i hi'
      omega

/-- `found` is the greatest index in `0..max` whose key is at most the target, 0 if there is none. The loop finds it in
at most 128 rounds, though it may run more, and whatever can be read above `max` it does not read. -/
structure ExactSearch (key : ℕ → ℕ) (target carry max found : ℕ) : Prop where
  greatest : (∃ i ≤ max, key i ≤ target) → IsGreatest {i | i ≤ max ∧ key i ≤ target} found
  none : (∀ i ≤ max, target < key i) → found = 0
  reads : ∀ read : ℕ → Res ℕ, (∀ i ≤ max, read i = .ok (key i)) → ∀ rounds, 128 ≤ rounds →
    ∃ reads, searchLoop read target carry rounds 0 max = .ok (found, reads) ∧ reads.length ≤ 128 ∧ ∀ i ∈ reads, i ≤ max

theorem searchLast_exact (hcarry : carry = 1 ∨ carry = 2) {max : ℕ} (hmax : max < 2 ^ 128)
    (hmono : MonotoneOn key (Set.Iic max)) : ExactSearch key target carry max (searchLast key target carry 128 0 max) := by
  have hsorted : ∀ i j, i ≤ j → j ≤ max → key i ≤ key j := fun i j hij hj => hmono (hij.trans hj) hj hij
  have hlast : ∀ rounds, 128 ≤ rounds → searchLast key target carry rounds 0 max = lastAt key target max :=
    fun rounds hrounds =>
      searchLast_eq_lastAt hcarry (hmax.trans_le (Nat.pow_le_pow_right two_pos hrounds)) hsorted
  rw [hlast 128 le_rfl]
  refine ⟨lastAt_greatest, lastAt_none, fun read hread rounds hrounds => ?_⟩
  rw [← hlast rounds hrounds]
  exact searchLoop_ok hcarry 128 rounds 0 max (Nat.zero_le max) hmax hmax hrounds hread

/-- after every run, while the epochs fit, the searches of the global history are exact -/
theorem run_searches {cfg : Config} {env₀ env : Env} {calls : List (Env × Ve.Call)} (hb : InBlocks env₀ calls env)
    {erc20 : Address → ERC20} (shady : Address) (hfresh : ∀ token spender, (erc20 token).allowance cfg.self spender = 0)
    {s : State} (hs : s = run (execIn cfg) (deploy env₀ erc20 shady) calls) (hlen : s.epoch < 2 ^ 128) (target : ℕ) :
    ExactSearch (fun i => (s.pointHistory i).ts) target 2 s.epoch (findTimestampEpoch s target) ∧
      ExactSearch (fun i => (s.pointHistory i).blk) target 1 s.epoch (findBlockEpoch s target s.epoch) := by
  have hclock : GlobalClock env s := hs ▸ (run_clocked hb shady hfresh).global
  constructor
  · exact searchLast_exact (.inr rfl) hlen fun _ _ _ hj hij => (hclock.mono hij hj).1
  · exact searchLast_exact (.inl rfl) hlen fun _ _ _ hj hij => (hclock.mono hij hj).2

/-- **The searches are exact.** On every history of less than `2 ^ 128` points whose keys never decrease, and for every
target, each of the four searches finds the greatest index with a key up to the target. Both ways of rounding the middle
find the same. -/
theorem searches_exact (s : State) (id target : ℕ) :
    (s.epoch < 2 ^ 128 → MonotoneOn (fun i => (s.pointHistory i).ts) (Set.Iic s.epoch) →
      ExactSearch (fun i => (s.pointHistory i).ts) target 2 s.epoch (findTimestampEpoch s target)) ∧
    (∀ max < 2 ^ 128, MonotoneOn (fun i => (s.userPointHistory id i).ts) (Set.Iic max) →
      ExactSearch (fun i => (s.userPointHistory id i).ts) target 2 max (findTimestampUserEpoch s id target max)) ∧
    (∀ max < 2 ^ 128, MonotoneOn (fun i => (s.pointHistory i).blk) (Set.Iic max) →
      ExactSearch (fun i => (s.pointHistory i).blk) target 1 max (findBlockEpoch s target max)) ∧
    (s.userPointEpoch id < 2 ^ 128 →
      MonotoneOn (fun i => (s.userPointHistory id i).blk) (Set.Iic (s.userPointEpoch id)) →
      ∃ found, ExactSearch (fun i => (s.userPointHistory id i).blk) target 1 (s.userPointEpoch id) found ∧
        ∀ env, balanceOfAtNFT s env id target = do
          require (target ≤ env.number) "WRONG_INPUT"
          powerLeft (s.userPointHistory id found) (← timeOfBlock s env target)) ∧
    ∀ (key : ℕ → ℕ), ∀ max < 2 ^ 128, MonotoneOn key (Set.Iic max) →
      searchLast key target 1 128 0 max = searchLast key target 2 128 0 max := by
  refine ⟨searchLast_exact (.inr rfl), fun max => searchLast_exact (.inr rfl), fun max => searchLast_exact (.inl rfl),
    fun hmax hmono => ⟨_, searchLast_exact (.inl rfl) hmax hmono, fun env => ?_⟩, fun key max hmax hmono => ?_⟩
  · simp only [balanceOfAtNFT, timeOfBlock, powerLeft, bind_assoc]
  · have hsorted : ∀ i j, i ≤ j → j ≤ max → key i ≤ key j := fun i j hij hj => hmono (hij.trans hj) hj hij
    rw [searchLast_eq_lastAt (.inl rfl) hmax hsorted, searchLast_eq_lastAt (.inr rfl) hmax hsorted]

/-- two points in each block -/
def exampleHistory : State := { exampleDeploy with epoch := 3, pointHistory := fun i => ⟨0, 0, 10 * i, i / 2⟩ }

/-- among points of the same block the last one is found -/
theorem searches_exact_repeated : findBlockEpoch exampleHistory 0 3 = 1 ∧
    ExactSearch (fun i => (exampleHistory.pointHistory i).blk) 0 1 3 (findBlockEpoch exampleHistory 0 3) := by
  have hmono : MonotoneOn (fun i => (exampleHistory.pointHistory i).blk) (Set.Iic 3) :=
    fun _ _ _ _ h => Nat.div_le_div_right h
  exact ⟨by decide, (searches_exact exampleHistory 1 0).2.2.1 3 (by decide) hmono⟩

end SimContracts.VeDistributor
