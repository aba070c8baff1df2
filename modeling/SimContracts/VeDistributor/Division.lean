/-
Division in claims. A claim divides by the recorded supply of every week it looks at, also of a week in which its NFT
has no power as long as the NFT has a later point. The supply is positive if some NFT has power at the boundary; so the
claims of an NFT are safe if its lock is not changed after a boundary without any power since its last point, and no power
is given in a boundary second whose supply is already recorded. What happens to other NFTs does not matter: the last
locker may leave, and the NFTs locked later can claim.

Results:
  claims_divide      in runs of such calls, claims with an up-to-date supply never divide by zero
  claim_divides_zero a lock too small for a slope is increased two weeks later: its claims divide by zero from then on
-/
import SimContracts.Ve.Passes
import SimContracts.VeDistributor.Schedule

namespace SimContracts.VeDistributor

open Solidity Ve Search

variable {cfg : Config} {self : Address} {s s' : System} {d d' : Dist} {ve ve' : Ve.State} {env : Env} {now : ℕ}
  {K : ℕ → Prop}

/-! ## The invariant -/

/-- every recorded supply covers the power of each NFT at its boundary, and between two points of an NFT of `K` there was
power at every boundary -/
structure Divisible (K : ℕ → Prop) (s : System) : Prop where
  aligned : s.dist.timeCursor % WEEK = 0
  recorded : ∀ w, w % WEEK = 0 → s.dist.startTime ≤ w → w < s.dist.timeCursor →
    w ≤ (lastPoint s.ve).ts ∧ ∀ i, userPower s.ve i w ≤ s.dist.veSupply w
  powered : ∀ id k w, K id → 1 ≤ k → k < s.ve.userPointEpoch id → w % WEEK = 0 → s.dist.startTime ≤ w →
    (s.ve.userPointHistory id k).ts ≤ w → w < (s.ve.userPointHistory id (k + 1)).ts → ∃ i, 0 < userPower s.ve i w

/-- same vote escrow, and the same recorded supplies -/
structure SameSupply (s s' : System) : Prop where
  ve : s'.ve = s.ve
  veSupply : s'.dist.veSupply = s.dist.veSupply
  timeCursor : s'.dist.timeCursor = s.dist.timeCursor
  startTime : s'.dist.startTime = s.dist.startTime

theorem SameSupply.trans {s₁ : System} (h : SameSupply s s₁) (h' : SameSupply s₁ s') : SameSupply s s' :=
  ⟨h'.ve.trans h.ve, h'.veSupply.trans h.veSupply, h'.timeCursor.trans h.timeCursor, h'.startTime.trans h.startTime⟩

theorem SameSupply.divisible (h : SameSupply s s') (hd : Divisible K s) : Divisible K s' := by
  refine ⟨h.timeCursor ▸ hd.aligned, ?_, ?_⟩
  · rw [h.ve, h.veSupply, h.timeCursor, h.startTime]
    exact hd.recorded
  · rw [h.ve, h.startTime]
    exact hd.powered

/-- the points of an NFT are not after the last checkpoint -/
theorem userPoint_le (hg : Good ve) {i k : ℕ} (hk : k ≤ ve.userPointEpoch i) :
    (ve.userPointHistory i k).ts ≤ (lastPoint ve).ts := by
  rcases hg.supply.users i with ⟨h0, -⟩ | ⟨-, hts, -⟩
  · obtain rfl : k = 0 := by omega
    rw [hg.history.first]
    exact Nat.zero_le _
  · exact (hg.history.userSorted i k _ hk le_rfl).trans hts

/-! ## The vote escrow moves on -/

theorem Divisible.moves (h : Divisible K s) (hg : Good s.ve) (hext : Extends now s.ve ve') (hi : HistoryInv ve')
    (hle : (lastPoint s.ve).ts ≤ now)
    (hquiet : now % WEEK = 0 → s.dist.startTime ≤ now → now < s.dist.timeCursor →
      ∀ i, userPower ve' i now ≤ userPower s.ve i now)
    (hpower : ∀ id, K id → s.ve.userPointEpoch id ≠ ve'.userPointEpoch id → 0 < s.ve.userPointEpoch id →
      ∀ w, w % WEEK = 0 → s.dist.startTime ≤ w → (userPoint s.ve id).ts ≤ w → w < now → ∃ i, 0 < userPower s.ve i w) :
    Divisible K { s with ve := ve' } := by
  refine ⟨h.aligned, fun w halign hstart hw => ?_, fun id k w hid hk hlt halign hstart hfrom hto => ?_⟩
  · obtain ⟨hts, hcover⟩ := h.recorded w halign hstart hw
    refine ⟨hts.trans (lastTs_le hext hi), fun i => le_trans ?_ (hcover i)⟩
    rcases (hts.trans hle).lt_or_eq with hbefore | rfl
    · exact (hext.userPower hbefore i).le
    · exact hquiet halign hstart hw i
  · dsimp only at hlt hstart hfrom hto ⊢
    have hpast : (∃ i, 0 < userPower s.ve i w) → w < now → ∃ i, 0 < userPower ve' i w := by
      rintro ⟨i, hi⟩ hw
      exact ⟨i, by rw [hext.userPower hw]; exact hi⟩
    rcases Nat.lt_trichotomy k (s.ve.userPointEpoch id) with hold | hlast | hnew
    · -- both points are old
      rw [hext.userPoints id k hold.le] at hfrom
      rw [hext.userPoints id (k + 1) hold] at hto
      have hbefore := hto.trans_le ((userPoint_le hg hold).trans hle)
      exact hpast (h.powered id k w hid hk hold halign hstart hfrom hto) hbefore
    · -- the first new point
      rw [hext.newPoints id (k + 1) (by omega) hlt] at hto
      rw [hext.userPoints id k hlast.le, hlast] at hfrom
      exact hpast (hpower id hid (by omega) (by omega) w halign hstart hfrom hto) hto
    · rw [hext.newPoints id k hnew hlt.le] at hfrom
      rw [hext.newPoints id (k + 1) (by omega) hlt] at hto
      omega

/-! ## The supply checkpoint -/

theorem Divisible.record (h : Divisible K s) (hg : Good s.ve) (hlen : s.ve.epoch < 2 ^ 128) {upTo rounds t : ℕ}
    {supply : ℕ → ℕ} (hup : upTo ≤ (lastPoint s.ve).ts)
    (hr : recordSupply s.ve upTo rounds s.dist.timeCursor s.dist.veSupply = .ok (supply, t)) :
    Divisible K { s with dist := { s.dist with veSupply := supply, timeCursor := t } } := by
  have hrec := recordSupply_ok hg.history hlen h.aligned hr
  refine ⟨hrec.aligned, fun w halign hstart hw => ?_, h.powered⟩
  dsimp only at hstart hw ⊢
  rcases Nat.lt_or_ge w s.dist.timeCursor with hold | hnew
  · obtain ⟨hts, hcover⟩ := h.recorded w halign hstart hold
    rw [hrec.kept w fun hin => absurd hin.2.1 (not_le.2 hold)]
    exact ⟨hts, hcover⟩
  · obtain ⟨hle, hvalue⟩ := hrec.written w halign hnew hw
    refine ⟨hle.trans hup, fun i => ?_⟩
    rw [hvalue]
    -- the power of one NFT is within the total
    have hsum := sum_userPower_le hg halign (hle.trans hup) {i}
    rwa [Finset.sum_singleton] at hsum

theorem checkpointTotalSupply_divisible (h : checkpointTotalSupply s.dist s.ve env = .ok (d', ve')) (hw : NoWrap ve')
    (hlen : ve'.epoch < 2 ^ 128) (ht : Timely s.ve env) (hg : Good s.ve) (hd : Divisible K s) :
    Good ve' ∧ Divisible K { s with dist := d', ve := ve' } := by
  obtain ⟨ve₁, hc, h⟩ := bind_ok.1 h
  obtain ⟨⟨supply, t⟩, hr, h⟩ := bind_ok.1 h
  cases h
  obtain ⟨hfades, hgood⟩ := Ve.checkpoint_good hc
  obtain ⟨hg', hlast⟩ := hgood hw ht hg
  have hsame : ∀ id, ve'.userPointEpoch id = s.ve.userPointEpoch id := by
    intro id
    have hnear : ∀ i, s.ve.lockedEnd i ≤ env.timestamp + MAX_TIME :=
      fun i => (hg.supply.ends_le i).trans (Nat.add_le_add_right ht.ordered _)
    have hcall : Ve.exec ⟨0, fun _ => 0, fun _ => true⟩ s.ve env .checkpoint = .ok ve' := hc
    exact exec_points hnear hcall fun hid => hid
  have hd' := hd.moves hg hfades.grows hg'.history ht.ordered (fun _ _ _ => hfades.userPower_le)
    fun id _ hne => absurd (hsame id).symm hne
  refine ⟨hg', Divisible.record (s := { s with ve := ve' }) hd' hg' hlen ?_ hr⟩
  rw [hlast]
  exact Nat.div_mul_le_self _ _

/-! ## The division in a claim -/

theorem powerAt_avoids (p : Point) (week : ℕ) : Avoids (.panic 0x12) (powerAt p week) :=
  .bind (avoids_usub (by decide) _ _) fun _ _ => .bind (avoids_i128 (by decide) _) fun _ _ =>
    .bind (avoids_i128 (by decide) _) fun _ _ => .pure _

/-- paying a week with a recorded supply does not divide by zero -/
theorem payWeek_avoids {id power : ℕ} {c : ClaimLoop} (h : c.weekCursor < WEEKS_SIZE → 0 < d.veSupply c.weekCursor) :
    Avoids (.panic 0x12) (payWeek d id power c) := by
  refine .bind (avoids_inBounds (by decide) _ _) fun _ hin => .bind (avoids_fits (by decide) _ _) fun _ _ =>
    .bind (avoids_udiv (.inl (h ?_))) fun _ _ => .bind (avoids_fits (by decide) _ _) fun _ _ =>
      .bind (avoids_fits (by decide) _ _) fun _ _ => .pure _
  have hin' : (inBounds c.weekCursor WEEKS_SIZE >>= fun _ => pure ()) = .ok () := by
    rw [hin]
    rfl
  exact (inBounds_bind.1 hin').1

/-- **The loop of a claim.** Every week it pays for has some power: that of the NFT itself, or, if the NFT has a later
point, that of another one. -/
theorem claimWeeks_avoids (hsort : UserSorted ve) (start : ℕ) {id lastTokenTime : ℕ}
    (hsupply : ∀ w, w % WEEK = 0 → start ≤ w → w < lastTokenTime → (∃ i, 0 < userPower ve i w) → 0 < d.veSupply w)
    (hpowered : ∀ k w, 1 ≤ k → k < ve.userPointEpoch id → w % WEEK = 0 → start ≤ w →
      (ve.userPointHistory id k).ts ≤ w → w < (ve.userPointHistory id (k + 1)).ts → ∃ i, 0 < userPower ve i w)
    (rounds : ℕ) {c : ClaimLoop} (hc : Standing ve id (ve.userPointEpoch id) c) (halign : c.weekCursor % WEEK = 0)
    (hstart : start ≤ c.weekCursor) :
    Avoids (.panic 0x12) (claimWeeks d ve id lastTokenTime (ve.userPointEpoch id) rounds c) := by
  induction rounds generalizing c with
  | zero => exact .ok c
  | succ rounds ih =>
    rw [claimWeeks]
    split_ifs with hdone hpass
    · exact .ok c
    · exact ih (hc.next hpass.1 hpass.2) halign hstart
    · refine .bind (powerAt_avoids _ _) fun power hpower => ?_
      split_ifs with hstop
      · exact .pure c
      · refine .bind (payWeek_avoids fun hin => hsupply _ halign hstart (not_le.1 hdone) ?_) fun c' hc' => ?_
        · have hvalue := powerAt_ok hin hpower
          rw [hc.userPointAt_eq hsort hpass] at hvalue
          by_cases h0 : power = 0
          · -- without power of its own, the NFT has a point after the week
            have hmore : c.userEpoch ≤ ve.userPointEpoch id := not_lt.1 fun hlt => hstop ⟨h0, hlt⟩
            rcases hc.point with ⟨-, -, hts⟩ | ⟨hone, -, hold, hts, hpoint⟩
            · exact absurd ⟨hts, hmore⟩ hpass
            · rw [if_neg (not_lt.2 hmore)] at hpoint
              have hbefore : c.weekCursor < c.userPoint.ts := not_le.1 fun hle => hpass ⟨hle, hmore⟩
              rw [hold] at hts
              refine hpowered (c.userEpoch - 1) _ (by omega) (by omega) halign hstart hts ?_
              rwa [Nat.sub_add_cancel hc.pos, ← hpoint]
          · refine ⟨id, ?_⟩
            rw [userPower, ← hvalue]
            exact_mod_cast Nat.pos_of_ne_zero h0
        · obtain ⟨-, -, rfl⟩ := payWeek_ok hc'
          exact ih (hc.pay _ _) (by simp [halign]) (hstart.trans (Nat.le_add_right _ _))

/-- cursors of NFTs stand on week boundaries -/
theorem Schedule.cursor_aligned (h : Schedule now s) (id : ℕ) : s.dist.timeCursorOf id % WEEK = 0 := by
  by_cases h0 : s.dist.timeCursorOf id = 0
  · rw [h0]
    rfl
  · obtain ⟨n, hn, -⟩ := h.claimed id h0
    have hfirst : firstWeek s id % WEEK = 0 := by
      unfold firstWeek
      rcases max_choice s.dist.startTime (ceilWeek (firstUsablePoint s id).ts) with heq | heq
      · rw [heq, h.start]
      · rw [heq]
        exact Nat.mul_mod_left _ _
    rw [hn, Nat.add_mul_mod_self_right, hfirst]

theorem calculateClaim_avoids (hd : Divisible K s) (hs : Schedule now s) {lastTokenTime : ℕ}
    (htime : lastTokenTime ≤ s.dist.startTime ∨ lastTokenTime ≤ s.dist.timeCursor) {id : ℕ} (hid : K id) :
    Avoids (.panic 0x12) (calculateClaim s.dist s.ve id lastTokenTime) := by
  unfold calculateClaim
  dsimp only
  split_ifs with hempty hdone
  · exact .ok _
  · exact .ok _
  · obtain ⟨hpos, hle, -⟩ := firstUserEpoch_spec s.dist s.ve id hempty fun h0 => (hs.cursor id h0).1
    have hfrom := (firstWeekCursor_spec hempty (hs.cursor id)).2
    have halign : claimStart s.dist s.ve id % WEEK = 0 := by
      unfold claimStart
      rcases max_choice (firstWeekCursor s.dist id (s.ve.userPointHistory id (firstUserEpoch s.dist s.ve id)))
        s.dist.startTime with heq | heq
      · rw [heq, firstWeekCursor]
        split_ifs
        · exact Nat.mul_mod_left _ _
        · exact hs.cursor_aligned id
      · rw [heq, hs.start]
    refine .bind (claimWeeks_avoids hs.points.sorted s.dist.startTime ?_ (fun k w => hd.powered id k w hid) 50
      ⟨hpos, .inl ⟨hle, rfl, hfrom.trans (le_max_left _ _)⟩⟩ halign (le_max_right _ _)) fun _ _ =>
        .bind (avoids_usub (by decide) _ _) fun _ _ => .pure _
    intro w halign hstart hw
    rintro ⟨i, hi⟩
    have hcover := (hd.recorded w halign hstart (by omega)).2 i
    exact_mod_cast hi.trans_le hcover

theorem transfer_avoids {code : ℕ} (t : ERC20) (src dst : Address) (amount : ℕ) :
    Avoids (.panic code) (t.transfer src dst amount) :=
  .bind (avoids_ite (.inr (by simp))) fun _ _ => .bind (avoids_ite (.inr (by simp))) fun _ _ =>
    .bind (avoids_ite (.inr (by simp))) fun _ _ => .pure _

theorem claimAndPay_avoids (hd : Divisible K s) (hs : Schedule now s) {lastTokenTime : ℕ}
    (htime : lastTokenTime ≤ s.dist.startTime ∨ lastTokenTime ≤ s.dist.timeCursor) {id : ℕ} (hid : K id) :
    Avoids (.panic 0x12) (claimAndPay self s id lastTokenTime) := by
  refine .bind (.bind (calculateClaim_avoids hd hs htime hid) fun r _ => ?_) ?_
  · split_ifs
    · exact .pure _
    · exact .pure _
  · rintro ⟨d₁, r⟩ -
    refine .bind ?_ fun _ _ => .pure _
    unfold payOwner
    split_ifs
    · exact .bind (transfer_avoids _ _ _ _) fun _ _ => .pure _
    · exact .ok _

theorem claimAndPay_same {id lastTokenTime amount : ℕ} (h : claimAndPay self s id lastTokenTime = .ok (s', amount)) :
    SameSupply s s' := by
  obtain ⟨⟨d₁, r⟩, hc, h⟩ := bind_ok.1 h
  obtain ⟨s₁, hp, h⟩ := bind_ok.1 h
  cases h
  obtain ⟨-, hd⟩ := claimOne_ok hc
  obtain ⟨token, rfl, -⟩ := payOwner_ok hp
  refine ⟨rfl, ?_, ?_, ?_⟩ <;> rw [hd] <;> split_ifs <;> rfl

/-- id 0 ends the list -/
theorem claimEach_avoids (ids : List ℕ) (hids : ∀ id ∈ ids.takeWhile (· ≠ 0), K id) {total : ℕ} (hd : Divisible K s) (hs : Schedule now s)
    (htime : s.dist.lastTokenTime / WEEK * WEEK ≤ s.dist.startTime ∨
      s.dist.lastTokenTime / WEEK * WEEK ≤ s.dist.timeCursor) :
    Avoids (.panic 0x12) (claimEach self (s.dist.lastTokenTime / WEEK * WEEK) ids s total) := by
  induction ids generalizing s total with
  | nil => exact .ok _
  | cons id ids ih =>
    rw [claimEach]
    split_ifs with hzero
    · exact .ok _
    · rw [List.takeWhile_cons_of_pos (by simpa using hzero)] at hids
      refine .bind (claimAndPay_avoids hd hs htime (hids id List.mem_cons_self)) ?_
      rintro ⟨s₁, amount⟩ hc
      obtain ⟨hs₁, hlast⟩ := claimAndPay_schedule hc hs
      have hsame := claimAndPay_same hc
      refine .bind (avoids_fits (by decide) _ _) fun total' _ => ?_
      rw [← hlast]
      exact ih (fun i hi => hids i (List.mem_cons_of_mem _ hi)) (hsame.divisible hd) hs₁ (by rwa [hlast, hsame.startTime, hsame.timeCursor])

theorem lowerIfPaid_avoids {code : ℕ} (hcode : code ≠ 0x11) (s : System) (amount : ℕ) :
    Avoids (.panic code) (if amount ≠ 0 then lowerLastBalance s amount else pure s) := by
  split_ifs
  · exact .bind (avoids_usub (by simpa using hcode.symm) _ _) fun _ _ => .pure _
  · exact .pure _

/-! ## Whole runs -/

/-- the NFTs whose lock a call changes -/
def Call.changes (s : System) : Call → ℕ → Prop
  | .ve call => call.changes s.ve
  | _ => fun _ => False

/-- a call in time; if it can give power in a boundary second, the supply of that boundary is not recorded yet; and if
it changes a lock of an NFT of `K` that has points, some NFT had power at every boundary since the last of them -/
def Powered (K : ℕ → Prop) (s : System) (c : Env × Call) : Prop :=
  ((lastPoint s.ve).ts ≤ c.1.timestamp ∧
    (c.2.checkpoints = true → c.1.timestamp ≤ startTs s.ve c.1 / WEEK * WEEK + 255 * WEEK)) ∧
  (c.2.locks = true → c.1.timestamp % WEEK = 0 → s.dist.startTime ≤ c.1.timestamp → s.dist.timeCursor ≤ c.1.timestamp) ∧
  ∀ id, K id → c.2.changes s id → 0 < s.ve.userPointEpoch id → ∀ w, w % WEEK = 0 → s.dist.startTime ≤ w →
    (userPoint s.ve id).ts ≤ w → w < c.1.timestamp → ∃ i, 0 < userPower s.ve i w

theorem checkpoint_divisible {balance : ℕ} (h : checkpoint s.dist s.ve env balance = .ok (d', ve')) (hw : NoWrap ve')
    (hlen : ve'.epoch < 2 ^ 128) (ht : Timely s.ve env) (hg : Good s.ve) (hd : Divisible K s) :
    Good ve' ∧ Divisible K { s with dist := d', ve := ve' } := by
  simp only [checkpoint, uadd_bind] at h
  obtain ⟨-, h⟩ := h
  split_ifs at h
  · obtain ⟨d₁, hd₁, h⟩ := bind_ok.1 h
    obtain ⟨tokens, -, rfl⟩ := checkpointToken_ok hd₁
    let s₁ : System := { s with dist := { s.dist with
      activePeriod := env.timestamp / WEEK * WEEK, tokenLastBalance := balance, lastTokenTime := env.timestamp,
      tokensPerWeek := tokens } }
    have hd₂ : Divisible K s₁ := SameSupply.divisible (s := s) ⟨rfl, rfl, rfl, rfl⟩ hd
    exact checkpointTotalSupply_divisible (s := s₁) h hw hlen ht hg hd₂
  · cases h
    exact ⟨hg, hd⟩

theorem checkpointIfDue_divisible (h : checkpointIfDue s env = .ok s') (hw : NoWrap s'.ve) (hlen : s'.ve.epoch < 2 ^ 128)
    (ht : Timely s.ve env) (hg : Good s.ve) (hd : Divisible K s) : Good s'.ve ∧ Divisible K s' := by
  unfold checkpointIfDue at h
  split_ifs at h
  · obtain ⟨⟨d₁, ve₁⟩, hc, h⟩ := bind_ok.1 h
    cases h
    exact checkpointTotalSupply_divisible hc hw hlen ht hg hd
  · cases h
    exact ⟨hg, hd⟩

theorem claimEach_same {lastTokenTime : ℕ} (ids : List ℕ) {total total' : ℕ}
    (h : claimEach self lastTokenTime ids s total = .ok (s', total')) : SameSupply s s' := by
  induction ids generalizing s total with
  | nil =>
    cases h
    exact ⟨rfl, rfl, rfl, rfl⟩
  | cons id ids ih =>
    rw [claimEach] at h
    split_ifs at h
    · cases h
      exact ⟨rfl, rfl, rfl, rfl⟩
    · obtain ⟨⟨s₁, amount⟩, hc, h⟩ := bind_ok.1 h
      simp only [uadd_bind] at h
      exact (claimAndPay_same hc).trans (ih h.2)

theorem lowerIfPaid_same {amount : ℕ} (h : (if amount ≠ 0 then lowerLastBalance s amount else pure s) = .ok s') :
    SameSupply s s' := by
  split_ifs at h
  · simp only [lowerLastBalance, usub_bind, pure_ok] at h
    obtain ⟨-, rfl⟩ := h
    exact ⟨rfl, rfl, rfl, rfl⟩
  · cases h
    exact ⟨rfl, rfl, rfl, rfl⟩

/-- **One call.** A call that meets the condition keeps recorded supplies above the powers, and powered gaps. -/
theorem exec_divisible {c : Env × Call} (h : exec cfg self s c = .ok s') (hp : Powered K s c) (hw : NoWrap s'.ve)
    (hlen : s'.ve.epoch < 2 ^ 128) (hg : Good s.ve) (hd : Divisible K s) : Good s'.ve ∧ Divisible K s' := by
  obtain ⟨env, call⟩ := c
  obtain ⟨⟨hordered, hwithin⟩, hlocks, hpower⟩ := hp
  have hclaim : ∀ {s₁ s₂ : System}, checkpointIfDue s env = .ok s₁ → SameSupply s₁ s₂ → NoWrap s₂.ve →
      s₂.ve.epoch < 2 ^ 128 → env.timestamp ≤ startTs s.ve env / WEEK * WEEK + 255 * WEEK → Good s₂.ve ∧ Divisible K s₂ := by
    intro s₁ s₂ h1 hsame hw hlen hwithin
    rw [hsame.ve] at hw hlen ⊢
    obtain ⟨hg₁, hd₁⟩ := checkpointIfDue_divisible h1 hw hlen ⟨hordered, hwithin⟩ hg hd
    exact ⟨hg₁, hsame.divisible hd₁⟩
  cases call with
  | ve call =>
    obtain ⟨ve₁, h1, ⟨⟩⟩ := bind_ok.1 h
    obtain ⟨hext, hfades⟩ := exec_extends h1
    have hg' := Ve.exec_good (c := (env, call)) hg ⟨hordered, hwithin⟩ hw h1
    have hnear : ∀ i, s.ve.lockedEnd i ≤ env.timestamp + MAX_TIME :=
      fun i => (hg.supply.ends_le i).trans (Nat.add_le_add_right hordered _)
    refine ⟨hg', hd.moves hg hext hg'.history hordered (fun halign hstart hcursor => ?_) fun id hid hne hpos => ?_⟩
    · have hquiet : call.locks = false := by
        by_contra hcon
        have hle : s.dist.timeCursor ≤ env.timestamp := hlocks (by simpa [Call.locks] using hcon) halign hstart
        exact absurd hcursor (not_lt.2 hle)
      exact (hfades hquiet).userPower_le
    · have hchanges : call.changes s.ve id := by
        by_contra hcon
        exact hne (exec_points hnear h1 hcon).symm
      exact hpower id hid hchanges hpos
  | checkpoint =>
    obtain ⟨⟨d₁, ve₁⟩, h1, ⟨⟩⟩ := bind_ok.1 h
    exact checkpoint_divisible h1 hw hlen ⟨hordered, hwithin rfl⟩ hg hd
  | checkpointTotalSupply =>
    obtain ⟨⟨d₁, ve₁⟩, h1, ⟨⟩⟩ := bind_ok.1 h
    exact checkpointTotalSupply_divisible h1 hw hlen ⟨hordered, hwithin rfl⟩ hg hd
  | claim id =>
    obtain ⟨s₁, h1, h⟩ := bind_ok.1 h
    obtain ⟨⟨s₂, amount⟩, h2, h⟩ := bind_ok.1 h
    exact hclaim h1 ((claimAndPay_same h2).trans (lowerIfPaid_same h)) hw hlen (hwithin rfl)
  | claimMany ids =>
    obtain ⟨s₁, h1, h⟩ := bind_ok.1 h
    obtain ⟨⟨s₂, total⟩, h2, h⟩ := bind_ok.1 h
    exact hclaim h1 ((claimEach_same ids h2).trans (lowerIfPaid_same h)) hw hlen (hwithin rfl)
  | fund src amount =>
    obtain ⟨token, -, ⟨⟩⟩ := bind_ok.1 h
    exact ⟨hg, SameSupply.divisible (s := s) ⟨rfl, rfl, rfl, rfl⟩ hd⟩

theorem deploySystem_divisible (env : Env) (erc20 : Address → ERC20) (shady : Address) (start : ℕ) (rewardToken : ERC20) :
    Divisible K (deploySystem env erc20 shady start rewardToken) := by
  refine ⟨Nat.mul_mod_left _ _, fun w _ hstart hw => ?_, fun id k w _ _ hk => absurd hk (Nat.not_lt_zero k)⟩
  have h1 : start / WEEK * WEEK ≤ w := hstart
  have h2 : w < start / WEEK * WEEK := hw
  omega

/-- **Claims do not divide by zero.** After every run of calls in the order of time whose successful ones meet the condition
for the NFTs of `K`, such as those that exist at the end, claims of any of them in a block before the next supply checkpoint
do not fail on a division. -/
theorem claims_divide (cfg : Config) (self : Address) (env₀ : Env) (erc20 : Address → ERC20) (shady : Address)
    (start : ℕ) (rewardToken : ERC20) (calls : List (Env × Call)) (K : ℕ → Prop)
    (horder : calls.Pairwise fun c c' => c.1.timestamp ≤ c'.1.timestamp)
    (hcalls : AlongOk (exec cfg self) (Powered K) (deploySystem env₀ erc20 shady start rewardToken) calls)
    (hwrap : NoWrap (run (exec cfg self) (deploySystem env₀ erc20 shady start rewardToken) calls).ve)
    (hepoch : (run (exec cfg self) (deploySystem env₀ erc20 shady start rewardToken) calls).ve.epoch < 2 ^ 128)
    (env : Env) (hlater : ∀ c ∈ calls, c.1.timestamp ≤ env.timestamp)
    (hcursor : env.timestamp < (run (exec cfg self) (deploySystem env₀ erc20 shady start rewardToken) calls).dist.timeCursor) :
    let s := run (exec cfg self) (deploySystem env₀ erc20 shady start rewardToken) calls
    (∀ id, K id → Avoids (.panic 0x12) (claimable s.dist s.ve id)) ∧
      (∀ id, K id → Avoids (.panic 0x12) (claim self s env id)) ∧
      ∀ ids : List ℕ, (∀ id ∈ ids.takeWhile (· ≠ 0), K id) → Avoids (.panic 0x12) (claimMany self s env ids) := by
  intro s
  have hinv : NoWrap s.ve → s.ve.epoch < 2 ^ 128 → Good s.ve ∧ Divisible K s := by
    refine run_inv_ok (exec cfg self) (I := fun s => NoWrap s.ve → s.ve.epoch < 2 ^ 128 → Good s.ve ∧ Divisible K s) ?_ _
      calls
      (fun _ _ => ⟨deploy_good env₀ erc20 shady, deploySystem_divisible env₀ erc20 shady start rewardToken⟩) hcalls
    intro s c s' ih hp h hw hlen
    have hext := (exec_grows h).1
    obtain ⟨hg, hd⟩ := ih (.of_extends hext hw) (hext.epoch_le.trans_lt hlen)
    exact exec_divisible h hp hw hlen hg hd
  obtain ⟨-, hd⟩ := hinv hwrap hepoch
  -- the books of claims at the time of the claim
  have hs : Schedule env.timestamp s :=
    run_until (exec cfg self) (fun c => c.1.timestamp) (· ≤ ·) (I := Schedule) (fun _ _ _ hle h => h.mono hle)
      (fun _ _ _ _ h ht _ hok => exec_schedule hok ht h) calls _ 0 env.timestamp
      (deploySystem_schedule env₀ erc20 shady start rewardToken) (Nat.zero_le _)
      (fun c hc => ⟨Nat.zero_le _, hlater c hc⟩) horder (along_true _ _ _)
  have htime : s.dist.lastTokenTime / WEEK * WEEK ≤ s.dist.startTime ∨
      s.dist.lastTokenTime / WEEK * WEEK ≤ s.dist.timeCursor := by
    have hround := Nat.div_mul_le_self s.dist.lastTokenTime WEEK
    have hbefore : env.timestamp < s.dist.timeCursor := hcursor
    rcases hs.tokenTime with h | h
    · exact .inl (hround.trans h)
    · exact .inr (by omega)
  have hdue : checkpointIfDue s env = .ok s := if_neg (not_le.2 hcursor)
  refine ⟨fun id hid => .bind (calculateClaim_avoids hd hs htime hid) fun _ _ => .pure _, fun id hid => ?_, fun ids hids => ?_⟩
  · rw [claim, hdue, ok_bind]
    refine .bind (claimAndPay_avoids hd hs htime hid) ?_
    rintro ⟨s₁, amount⟩ -
    exact lowerIfPaid_avoids (by decide) s₁ amount
  · rw [claimMany, hdue, ok_bind]
    refine .bind (claimEach_avoids ids hids hd hs htime) ?_
    rintro ⟨s₁, total⟩ -
    exact lowerIfPaid_avoids (by decide) s₁ total

/-! ### A lock after the last one left, and a lock without a slope -/

/-- the only locker leaves after the expiry, another lock is made later, and supply and rewards of its first week come in -/
def lockAfterExit : List (Env × Call) :=
  [(oneLock.1, .ve oneLock.2),
   (exampleEnv (105 * WEEK + 3), .ve (.withdraw 7 1)),
   (exampleEnv (105 * WEEK + 4), .ve (.createLock 7 (10 ^ 24) (16 * WEEK) (.ok true))),
   (exampleEnv (106 * WEEK + 5), .checkpoint),
   (exampleEnv (106 * WEEK + 6), .fund 1 (2 * 10 ^ 21)),
   (exampleEnv (107 * WEEK + 7), .checkpoint)]

theorem lockAfterExit_noWrap : NoWrap (run (exec exampleConfig 60) exampleSystem lockAfterExit).ve := by
  rw [lockAfterExit, run_cons, run_cons, run_cons]
  apply run_noWrap
  · simp [Along, Call.locks]
  · rw [exec_ve, exec_ve, exec_ve]
    -- the vote escrow before the second lock
    let calls : List (Env × Ve.Call) := [oneLock, (exampleEnv (105 * WEEK + 3), .withdraw 7 1)]
    let s := run (Ve.execIn exampleConfig) exampleDeploy calls
    have hw : NoWrap s := run_inv (Ve.execIn exampleConfig) (I := NoWrap) (P := fun _ c => c.2.locks = false)
      (fun _ _ _ hw hquiet h => ((exec_extends h).2 hquiet).noWrap hw) (run (Ve.execIn exampleConfig) exampleDeploy [oneLock])
      [(exampleEnv (105 * WEEK + 3), .withdraw 7 1)] oneLock_noWrap ⟨rfl, trivial⟩
    have hg : Good s := run_good (exampleEnv (100 * WEEK)) exampleTokens 7
      ⟨fun _ => ⟨by decide, fun _ => by decide +kernel⟩, fun _ => ⟨by decide +kernel, fun _ => by decide +kernel⟩, trivial⟩ hw
    have hquiet : ∀ i, 2 < i → ¬ i = s.tokenId + 1 := by
      rw [show s.tokenId = 1 by decide +kernel]
      omega
    exact commit_noWrap 2 hg hw (by decide +kernel) (by decide +kernel) hquiet (by decide +kernel)

/-- The second lock can be claimed although nobody had power between the expiry of the first one and its withdrawal, whose
NFT does not exist any more. -/
theorem claims_divide_lockAfterExit :
    let s := run (exec exampleConfig 60) exampleSystem lockAfterExit
    let env := exampleEnv (107 * WEEK + 8)
    env.timestamp < s.dist.timeCursor ∧ s.ve.idToOwner 1 = 0 ∧ s.ve.idToOwner 2 = 1 ∧ s.dist.veSupply (104 * WEEK) = 0 ∧
      (∀ id, id = 2 → Avoids (.panic 0x12) (claimable s.dist s.ve id)) ∧
      (∀ id, id = 2 → Avoids (.panic 0x12) (claim 60 s env id)) ∧
      ∀ ids : List ℕ, (∀ id ∈ ids.takeWhile (· ≠ 0), id = 2) → Avoids (.panic 0x12) (claimMany 60 s env ids) := by
  have hfree : ∀ (s : System) (c : Env × Call), (¬ c.2.changes s 2 ∨ s.ve.userPointEpoch 2 = 0) →
      ((lastPoint s.ve).ts ≤ c.1.timestamp ∧
        (c.2.checkpoints = true → c.1.timestamp ≤ startTs s.ve c.1 / WEEK * WEEK + 255 * WEEK)) ∧
      (c.2.locks = true → c.1.timestamp % WEEK ≠ 0) →
      Succeeds (exec exampleConfig 60 s c) → Powered (· = 2) s c := by
    rintro s c hnew ⟨htime, hlocks⟩ -
    refine ⟨htime, fun h1 h2 => absurd h2 (hlocks h1), fun id hid hchanges hpos => ?_⟩
    subst hid
    exact hnew.elim (absurd hchanges) fun h0 => by omega
  refine ⟨by decide +kernel, by decide +kernel, by decide +kernel, by decide +kernel, ?_⟩
  rw [exampleSystem]
  refine claims_divide exampleConfig 60 _ _ _ _ _ lockAfterExit (· = 2) (by decide) ?_ lockAfterExit_noWrap
    (by decide +kernel) _ (by decide +kernel) (by decide +kernel)
  -- only the second lock is a call for NFT 2, which has no point before
  refine ⟨hfree _ _ (.inr rfl) (by decide +kernel), ?_⟩
  refine ⟨hfree _ _ (.inl (by show ¬ 2 = 1; decide)) (by decide +kernel), ?_⟩
  refine ⟨hfree _ _ (.inr (by decide +kernel)) (by decide +kernel), ?_⟩
  refine ⟨hfree _ _ (.inl fun h => h) (by decide +kernel), ?_⟩
  refine ⟨hfree _ _ (.inl fun h => h) (by decide +kernel), ?_⟩
  exact ⟨hfree _ _ (.inl fun h => h) (by decide +kernel), trivial⟩

/-- A lock of 1000 units has slope zero, so the only NFT has no power at the boundaries of weeks 101 to 103 and their
supply is zero. When the lock is increased in week 103 it gets a second point, and then every claim of the NFT starts by
dividing its power of nothing in week 101 by the supply of that week. -/
theorem claim_divides_zero :
    let calls : List (Env × Call) :=
      [(exampleEnv (100 * WEEK + 5), .ve (.createLock 7 1000 (16 * WEEK) (.ok true))),
       (exampleEnv (101 * WEEK + 5), .checkpoint),
       (exampleEnv (102 * WEEK + 6), .fund 1 (2 * 10 ^ 21)),
       (exampleEnv (103 * WEEK + 5), .ve (.increaseAmount 7 1 (10 ^ 24))),
       (exampleEnv (104 * WEEK + 7), .checkpoint)]
    let s := run (exec exampleConfig 60) exampleSystem calls
    let env := exampleEnv (104 * WEEK + 8)
    env.timestamp < s.dist.timeCursor ∧ s.ve.idToOwner 1 = 1 ∧ s.dist.veSupply (101 * WEEK) = 0 ∧
      (claimable s.dist s.ve 1).failure = some (.panic 0x12) ∧ (claim 60 s env 1).failure = some (.panic 0x12) ∧
      (claimMany 60 s env [1]).failure = some (.panic 0x12) := by
  decide +kernel

end SimContracts.VeDistributor
