/-
Checked arithmetic and reverting calls, as Solidity 0.8 computes them. Nothing here is about one contract.

A call returns `Res α`: a value, or the revert that undoes the whole transaction. `uint256` is a natural number below
`2 ^ 256`; `uadd`, `usub`, `umul`, `udiv` panic exactly where the EVM does (overflow, underflow, zero divisor), and
`i128` is the same check for `int128`. `asInt128` is the explicit cast, which wraps and never reverts.

Each operation comes with a `_bind` lemma: a call that starts with the operation succeeds iff the check passes and the
rest succeeds at the plain value. `simp only` with these lemmas turns a successful `do` block into the plain equations
it establishes. A transaction that reverts leaves the state as it was: that is `commit`, and `run` folds it over a
list of calls.
-/
import Mathlib.Data.Int.ModEq
import Mathlib.Tactic

namespace SimContracts.Solidity

/-! ## Reverts -/

/-- why a call reverts: a reason string, a panic code (0x01 assert, 0x11 arithmetic, 0x12 zero divisor, 0x32 index),
or a loop that runs out of gas -/
inductive Revert where
  | error (reason : String)
  | panic (code : ℕ)
  | outOfGas
deriving DecidableEq, Repr

abbrev Res (α : Type) := Except Revert α

def require (p : Prop) [Decidable p] (reason : String) : Res Unit :=
  if p then .ok () else .error (.error reason)

/-- Solidity's `assert` -/
def assert (p : Prop) [Decidable p] : Res Unit := if p then .ok () else .error (.panic 0x01)

/-- the bounds check of a fixed-size array -/
def inBounds (i length : ℕ) : Res Unit := if i < length then .ok () else .error (.panic 0x32)

/-- the value of a view call, 0 if it reverts -/
def Res.shown : Res ℕ → ℕ
  | .ok v => v
  | .error _ => 0

/-- the reason a call reverts for, if it does -/
def Res.failure {α : Type} : Res α → Option Revert
  | .ok _ => none
  | .error e => some e

variable {α β : Type} {b : β}

/-- the call does not revert -/
def Succeeds (r : Res α) : Prop := ∃ a, r = .ok a

instance : ∀ r : Res α, Decidable (Succeeds r)
  | .ok a => isTrue ⟨a, rfl⟩
  | .error _ => isFalse nofun

theorem Res.failure_none {x : Res α} (h : x.failure = none) : ∃ a, x = .ok a := by
  cases x with
  | ok a => exact ⟨a, rfl⟩
  | error e => simp [Res.failure] at h

theorem bind_ok {x : Res α} {f : α → Res β} : (x >>= f) = .ok b ↔ ∃ a, x = .ok a ∧ f a = .ok b := by
  cases x with
  | error e => exact ⟨nofun, nofun⟩
  | ok a =>
    refine ⟨fun h => ⟨a, rfl, h⟩, ?_⟩
    rintro ⟨_, ⟨⟩, h⟩
    exact h

/-- two calls that start alike need only agree after a first part that succeeds -/
theorem bind_congr_of_ok {x : Res α} {f g : α → Res β} (h : ∀ a, x = .ok a → f a = g a) : (x >>= f) = x >>= g := by
  cases x with
  | error e => rfl
  | ok a => exact h a rfl

@[simp] theorem pure_ok {a a' : α} : (pure a : Res α) = .ok a' ↔ a = a' := by
  simp [pure, Except.pure]

theorem ok_bind (a : α) (f : α → Res β) : ((Except.ok a : Res α) >>= f) = f a := rfl

theorem require_bind {p : Prop} [Decidable p] {m : String} {f : Unit → Res β} :
    (require p m >>= f) = .ok b ↔ p ∧ f () = .ok b := by
  unfold require
  split_ifs with h
  · exact ⟨fun e => ⟨h, e⟩, fun e => e.2⟩
  · exact ⟨nofun, fun e => absurd e.1 h⟩

theorem require_ok {p : Prop} [Decidable p] {m : String} : require p m = .ok () ↔ p := by
  unfold require
  split_ifs with h <;> simp [h]

theorem assert_bind {p : Prop} [Decidable p] {f : Unit → Res β} :
    (assert p >>= f) = .ok b ↔ p ∧ f () = .ok b := by
  unfold assert
  split_ifs with h
  · exact ⟨fun e => ⟨h, e⟩, fun e => e.2⟩
  · exact ⟨nofun, fun e => absurd e.1 h⟩

theorem inBounds_bind {i length : ℕ} {f : Unit → Res β} :
    (inBounds i length >>= f) = .ok b ↔ i < length ∧ f () = .ok b := by
  unfold inBounds
  split_ifs with h
  · exact ⟨fun e => ⟨h, e⟩, fun e => e.2⟩
  · exact ⟨nofun, fun e => absurd e.1 h⟩

/-! ## Unsigned integers -/

/-- `type(uint256).max` -/
def uintMax : ℕ := 2 ^ 256 - 1

/-- the value if it fits `w` bits, else an arithmetic panic -/
def fits (w x : ℕ) : Res ℕ := if x < 2 ^ w then .ok x else .error (.panic 0x11)

def uadd (x y : ℕ) : Res ℕ := fits 256 (x + y)
def umul (x y : ℕ) : Res ℕ := fits 256 (x * y)
def usub (x y : ℕ) : Res ℕ := if y ≤ x then .ok (x - y) else .error (.panic 0x11)
def udiv (x y : ℕ) : Res ℕ := if 0 < y then .ok (x / y) else .error (.panic 0x12)
/-- `uint128` addition -/
def uadd128 (x y : ℕ) : Res ℕ := fits 128 (x + y)

theorem fits_ok {w x y : ℕ} : fits w x = .ok y ↔ x < 2 ^ w ∧ x = y := by
  unfold fits
  split_ifs with h <;> simp [h]

theorem usub_ok {x y z : ℕ} : usub x y = .ok z ↔ y ≤ x ∧ x - y = z := by
  unfold usub
  split_ifs with h <;> simp [h]

theorem udiv_ok {x y z : ℕ} : udiv x y = .ok z ↔ 0 < y ∧ x / y = z := by
  unfold udiv
  split_ifs with h <;> simp [h]

theorem uadd_ok {x y z : ℕ} : uadd x y = .ok z ↔ x + y < 2 ^ 256 ∧ x + y = z := fits_ok
theorem umul_ok {x y z : ℕ} : umul x y = .ok z ↔ x * y < 2 ^ 256 ∧ x * y = z := fits_ok

theorem fits_bind {w x : ℕ} {f : ℕ → Res β} : (fits w x >>= f) = .ok b ↔ x < 2 ^ w ∧ f x = .ok b := by
  simp only [bind_ok, fits_ok]
  exact ⟨fun ⟨_, ⟨h, e⟩, h'⟩ => ⟨h, e ▸ h'⟩, fun ⟨h, h'⟩ => ⟨x, ⟨h, rfl⟩, h'⟩⟩

theorem uadd_bind {x y : ℕ} {f : ℕ → Res β} :
    (uadd x y >>= f) = .ok b ↔ x + y < 2 ^ 256 ∧ f (x + y) = .ok b := fits_bind

theorem uadd128_bind {x y : ℕ} {f : ℕ → Res β} :
    (uadd128 x y >>= f) = .ok b ↔ x + y < 2 ^ 128 ∧ f (x + y) = .ok b := fits_bind

theorem umul_bind {x y : ℕ} {f : ℕ → Res β} :
    (umul x y >>= f) = .ok b ↔ x * y < 2 ^ 256 ∧ f (x * y) = .ok b := fits_bind

theorem usub_bind {x y : ℕ} {f : ℕ → Res β} :
    (usub x y >>= f) = .ok b ↔ y ≤ x ∧ f (x - y) = .ok b := by
  simp only [bind_ok, usub_ok]
  exact ⟨fun ⟨_, ⟨h, e⟩, h'⟩ => ⟨h, e ▸ h'⟩, fun ⟨h, h'⟩ => ⟨x - y, ⟨h, rfl⟩, h'⟩⟩

theorem udiv_bind {x y : ℕ} {f : ℕ → Res β} :
    (udiv x y >>= f) = .ok b ↔ 0 < y ∧ f (x / y) = .ok b := by
  simp only [bind_ok, udiv_ok]
  exact ⟨fun ⟨_, ⟨h, e⟩, h'⟩ => ⟨h, e ▸ h'⟩, fun ⟨h, h'⟩ => ⟨x / y, ⟨h, rfl⟩, h'⟩⟩

/-! ## Signed integers -/

/-- the range of `int128` -/
def IsInt128 (x : ℤ) : Prop := -2 ^ 127 ≤ x ∧ x < 2 ^ 127

instance (x : ℤ) : Decidable (IsInt128 x) := inferInstanceAs (Decidable (_ ∧ _))

/-- the value if it is an `int128`, else an arithmetic panic -/
def i128 (x : ℤ) : Res ℤ := if IsInt128 x then .ok x else .error (.panic 0x11)

/-- the explicit cast to `int128` -/
def asInt128 (x : ℤ) : ℤ := x.bmod (2 ^ 128)

/-- the value if it is an `int256`, else an arithmetic panic -/
def i256 (x : ℤ) : Res ℤ := if -2 ^ 255 ≤ x ∧ x < 2 ^ 255 then .ok x else .error (.panic 0x11)

/-- the explicit cast to `int256` -/
def asInt256 (x : ℤ) : ℤ := x.bmod (2 ^ 256)

theorem i128_ok {x y : ℤ} : i128 x = .ok y ↔ IsInt128 x ∧ x = y := by
  unfold i128
  split_ifs with h <;> simp [h]

theorem i128_bind {x : ℤ} {f : ℤ → Res β} : (i128 x >>= f) = .ok b ↔ IsInt128 x ∧ f x = .ok b := by
  simp only [bind_ok, i128_ok]
  exact ⟨fun ⟨_, ⟨h, e⟩, h'⟩ => ⟨h, e ▸ h'⟩, fun ⟨h, h'⟩ => ⟨x, ⟨h, rfl⟩, h'⟩⟩

/-- the cast of a value in range is the value -/
theorem asInt128_eq {x : ℤ} (h : IsInt128 x) : asInt128 x = x := by
  obtain ⟨h0, h1⟩ := h
  refine Int.bmod_eq_of_le ?_ ?_
  · norm_num at h0 ⊢
    omega
  · norm_num at h1 ⊢
    omega

/-! ## Transactions -/

/-- a transaction: a revert leaves the state as it was -/
def commit {σ : Type} (s : σ) (r : Res σ) : σ :=
  match r with
  | .ok s' => s'
  | .error _ => s

/-- the states of a system under a list of calls, each a transaction of its own -/
def run {σ κ : Type} (exec : σ → κ → Res σ) (s : σ) (calls : List κ) : σ :=
  calls.foldl (fun s c => commit s (exec s c)) s

section Run

variable {σ κ : Type} (exec : σ → κ → Res σ)

@[simp] theorem run_nil (s : σ) : run exec s [] = s := rfl

@[simp] theorem run_cons (s : σ) (c : κ) (cs : List κ) :
    run exec s (c :: cs) = run exec (commit s (exec s c)) cs := rfl

theorem run_snoc (s : σ) (cs : List κ) (c : κ) :
    run exec s (cs ++ [c]) = commit (run exec s cs) (exec (run exec s cs) c) := by
  simp [run, List.foldl_append]

/-- every call of the list meets `P` in the state it is made in -/
def Along (P : σ → κ → Prop) : σ → List κ → Prop
  | _, [] => True
  | s, c :: cs => P s c ∧ Along P (commit s (exec s c)) cs

instance decidableAlong {P : σ → κ → Prop} [∀ s c, Decidable (P s c)] : ∀ s cs, Decidable (Along exec P s cs)
  | _, [] => isTrue trivial
  | s, c :: cs =>
    have : Decidable (Along exec P (commit s (exec s c)) cs) := decidableAlong _ cs
    inferInstanceAs (Decidable (P s c ∧ Along exec P (commit s (exec s c)) cs))

theorem along_true (s : σ) (cs : List κ) : Along exec (fun _ _ => True) s cs := by
  induction cs generalizing s with
  | nil => trivial
  | cons c cs ih => exact ⟨trivial, ih _⟩

/-- an invariant kept by every successful call that meets `P` holds after every run whose calls all meet `P` -/
theorem run_inv {I : σ → Prop} {P : σ → κ → Prop}
    (hstep : ∀ s c s', I s → P s c → exec s c = .ok s' → I s') (s : σ) (cs : List κ) (hI : I s)
    (hP : Along exec P s cs) : I (run exec s cs) := by
  induction cs generalizing s with
  | nil => exact hI
  | cons c cs ih =>
    refine ih _ ?_ hP.2
    show I (commit s (exec s c))
    cases h : exec s c with
    | ok s' => exact hstep s c s' hI hP.1 h
    | error e => exact hI

/-- an invariant that may mention the time, along calls in the order of time that meet `P`, at any later time -/
theorem run_until {τ : Type} {I : τ → σ → Prop} {P : σ → κ → Prop} (time : κ → τ) (Before : τ → τ → Prop)
    (hmono : ∀ t t' s, Before t t' → I t s → I t' s)
    (hstep : ∀ t s c s', I t s → Before t (time c) → P s c → exec s c = .ok s' → I (time c) s') (cs : List κ) (s : σ)
    (t now : τ) (hI : I t s) (hle : Before t now) (ht : ∀ c ∈ cs, Before t (time c) ∧ Before (time c) now)
    (hcs : cs.Pairwise fun c c' => Before (time c) (time c')) (hP : Along exec P s cs) : I now (run exec s cs) := by
  induction cs generalizing s t with
  | nil => exact hmono t now s hle hI
  | cons c cs ih =>
    obtain ⟨hc, hnow⟩ := ht c List.mem_cons_self
    obtain ⟨hfirst, hrest⟩ := List.pairwise_cons.1 hcs
    refine ih _ (time c) ?_ hnow (fun d hd => ⟨hfirst d hd, (ht d (List.mem_cons_of_mem _ hd)).2⟩) hrest hP.2
    show I (time c) (commit s (exec s c))
    cases h : exec s c with
    | ok s' => exact hstep t s c s' hI hc hP.1 h
    | error e => exact hmono t _ s hc hI

/-- every successful call of the list meets `P` in the state it is made in; nothing is asked of a call that reverts -/
def AlongOk (P : σ → κ → Prop) : σ → List κ → Prop := Along exec fun s c => Succeeds (exec s c) → P s c

instance {P : σ → κ → Prop} [∀ s c, Decidable (P s c)] (s : σ) (cs : List κ) : Decidable (AlongOk exec P s cs) :=
  inferInstanceAs (Decidable (Along exec _ s cs))

theorem Along.ok {P : σ → κ → Prop} {s : σ} {cs : List κ} (h : Along exec P s cs) : AlongOk exec P s cs := by
  induction cs generalizing s with
  | nil => trivial
  | cons c cs ih => exact ⟨fun _ => h.1, ih h.2⟩

/-- calls that revert need not meet `P` -/
theorem run_inv_ok {I : σ → Prop} {P : σ → κ → Prop}
    (hstep : ∀ s c s', I s → P s c → exec s c = .ok s' → I s') (s : σ) (cs : List κ) (hI : I s)
    (hP : AlongOk exec P s cs) : I (run exec s cs) :=
  run_inv exec (fun s c s' h1 h2 h3 => hstep s c s' h1 (h2 ⟨s', h3⟩) h3) s cs hI hP

theorem run_timed {I : ℕ → σ → Prop} {time : κ → ℕ} (hmono : ∀ t t' s, t ≤ t' → I t s → I t' s)
    (hstep : ∀ t s c s', I t s → t ≤ time c → exec s c = .ok s' → I (time c) s') (cs : List κ) (s : σ) (t : ℕ)
    (hI : I t s) (ht : ∀ c ∈ cs, t ≤ time c) (hcs : cs.Pairwise fun c c' => time c ≤ time c') :
    ∃ t', I t' (run exec s cs) := by
  -- no call is later than the sum of all times
  refine ⟨t + (cs.map time).sum, run_until exec time (· ≤ ·) hmono (fun t s c s' h1 h2 _ h3 => hstep t s c s' h1 h2 h3) cs
    s t _ hI (Nat.le_add_right _ _) (fun c hc => ?_) hcs (along_true exec s cs)⟩
  have hsum : time c ≤ (cs.map time).sum := List.le_sum_of_mem (List.mem_map_of_mem hc)
  exact ⟨ht c hc, by omega⟩

/-- a fact about every call of a run is a fact about its `k`-th call, in the state the first `k` calls leave -/
theorem along_get {P : σ → κ → Prop} {s : σ} {cs : List κ} (h : Along exec P s cs) {k : ℕ} {c : κ}
    (hc : cs[k]? = some c) : P (run exec s (cs.take k)) c := by
  induction cs generalizing s k with
  | nil => simp at hc
  | cons d cs ih =>
    cases k with
    | zero =>
      obtain rfl : d = c := by simpa using hc
      exact h.1
    | succ k => exact ih h.2 (by simpa using hc)

theorem along_take {P : σ → κ → Prop} {s : σ} {cs : List κ} (h : Along exec P s cs) (k : ℕ) :
    Along exec P s (cs.take k) := by
  induction cs generalizing s k with
  | nil => simpa using h
  | cons d cs ih =>
    cases k with
    | zero => trivial
    | succ k => exact ⟨h.1, ih h.2 k⟩

/-- where a successful call keeps `I` exactly if it meets `P`, the states of a run all have `I` exactly if all its
successful calls meet `P` -/
theorem run_inv_iff {I : σ → Prop} {P : σ → κ → Prop}
    (hstep : ∀ s c s', I s → exec s c = .ok s' → (I s' ↔ P s c)) (s : σ) (cs : List κ) (hI : I s) :
    (∀ k, I (run exec s (cs.take k))) ↔ Along exec (fun s c => (∃ s', exec s c = .ok s') → P s c) s cs := by
  constructor
  · intro h
    induction cs generalizing s with
    | nil => trivial
    | cons c cs ih =>
      have h1 : I (commit s (exec s c)) := by simpa using h 1
      refine ⟨?_, ih _ h1 fun k => by simpa using h (k + 1)⟩
      rintro ⟨s', hs'⟩
      rw [hs'] at h1
      exact (hstep s c s' hI hs').1 h1
  · intro h k
    refine run_inv exec (P := fun s c => (∃ s', exec s c = .ok s') → P s c) ?_ s _ hI (along_take exec h k)
    intro s c s' hI hP hs'
    exact (hstep s c s' hI hs').2 (hP ⟨s', hs'⟩)

/-- a fact about every state of a run is one about the state each call is made in -/
theorem along_of_states {Q : σ → Prop} {s : σ} {cs : List κ} (h : ∀ k, Q (run exec s (cs.take k))) :
    Along exec (fun s _ => Q s) s cs := by
  induction cs generalizing s with
  | nil => trivial
  | cons c cs ih => exact ⟨h 0, ih fun k => by simpa using h (k + 1)⟩

/-- a part of a system whose every transaction is at most one call of the part is itself in a run of such calls; what the
transactions that meet `P` make of the calls, `Q`, holds along it -/
theorem run_part {τ ι : Type} {execPart : τ → ι → Res τ} (f : σ → τ) {P : σ → κ → Prop} {Q : τ → ι → Prop}
    (hstep : ∀ s c s', P s c → exec s c = .ok s' → f s' = f s ∨ ∃ i, execPart (f s) i = .ok (f s') ∧ Q (f s) i) (s : σ)
    (cs : List κ) (hP : AlongOk exec P s cs) :
    ∃ is, f (run exec s cs) = run execPart (f s) is ∧ Along execPart Q (f s) is := by
  induction cs generalizing s with
  | nil => exact ⟨[], rfl, trivial⟩
  | cons c cs ih =>
    obtain ⟨hfirst, hrest⟩ := hP
    obtain ⟨is, his, hQ⟩ := ih _ hrest
    rw [run_cons]
    cases hc : exec s c with
    | error e =>
      rw [hc] at his hQ
      exact ⟨is, his, hQ⟩
    | ok s' =>
      rw [hc] at his hQ
      rcases hstep s c s' (hfirst ⟨s', hc⟩) hc with hsame | ⟨i, hi, hQi⟩
      · rw [← hsame]
        exact ⟨is, his, hQ⟩
      · refine ⟨i :: is, ?_, hQi, ?_⟩
        · rw [run_cons, hi]
          exact his
        · rw [hi]
          exact hQ

/-- what the successful calls of a run report, in order -/
def gather {τ : Type} (f : σ → κ → List τ) : σ → List κ → List τ
  | _, [] => []
  | s, c :: cs => (match exec s c with | .ok _ => f s c | .error _ => []) ++ gather f (commit s (exec s c)) cs

/-- the system with a log that a successful call adds its report to -/
def logging {τ : Type} (f : σ → κ → List τ) (x : σ × List τ) (c : κ) : Res (σ × List τ) := do
  let s ← exec x.1 c
  pure (s, x.2 ++ f x.1 c)

/-- the log changes nothing, and holds what was gathered -/
theorem run_logging {τ : Type} (f : σ → κ → List τ) (s : σ) (xs : List τ) (cs : List κ) :
    run (logging exec f) (s, xs) cs = (run exec s cs, xs ++ gather exec f s cs) := by
  induction cs generalizing s xs with
  | nil => simp [gather]
  | cons c cs ih =>
    rw [run_cons, run_cons, gather, logging]
    cases exec s c with
    | error e => exact ih s xs
    | ok s' =>
      rw [← List.append_assoc]
      exact ih s' (xs ++ f s c)

/-- `run_timed` for an invariant of the state and of what was gathered on the way -/
theorem run_timed_log {τ : Type} {f : σ → κ → List τ} {I : ℕ → σ → List τ → Prop} {time : κ → ℕ}
    (hmono : ∀ t t' s xs, t ≤ t' → I t s xs → I t' s xs)
    (hstep : ∀ t s xs c s', I t s xs → t ≤ time c → exec s c = .ok s' → I (time c) s' (xs ++ f s c)) (cs : List κ) (s : σ)
    (t : ℕ) (hI : I t s []) (ht : ∀ c ∈ cs, t ≤ time c) (hcs : cs.Pairwise fun c c' => time c ≤ time c') :
    ∃ t', I t' (run exec s cs) (gather exec f s cs) := by
  have hlog := run_timed (logging exec f) (I := fun t x => I t x.1 x.2) (fun t t' x => hmono t t' x.1 x.2) ?_ cs (s, []) t
    hI ht hcs
  · rw [run_logging] at hlog
    exact hlog
  · rintro t ⟨s, xs⟩ c ⟨s', ys⟩ h hle hok
    obtain ⟨s₁, h1, ⟨⟩⟩ := bind_ok.1 hok
    exact hstep t s xs c s' h hle h1

/-- a quantity of each call added up over a run -/
def total (f : σ → κ → ℕ) : σ → List κ → ℕ
  | _, [] => 0
  | s, c :: cs => f s c + total f (commit s (exec s c)) cs

theorem total_snoc (f : σ → κ → ℕ) (s : σ) (cs : List κ) (c : κ) :
    total exec f s (cs ++ [c]) = total exec f s cs + f (run exec s cs) c := by
  induction cs generalizing s with
  | nil => simp [total]
  | cons d cs ih =>
    rw [List.cons_append, total, total, ih, run_cons]
    omega

end Run

/-! ## Calls that do not revert for one reason -/

/-- the call does not revert with `e` -/
def Avoids (e : Revert) (r : Res α) : Prop := r ≠ .error e

section Avoids

variable {e : Revert}

theorem Avoids.ok (a : α) : Avoids e (Except.ok a : Res α) := nofun
theorem Avoids.pure (a : α) : Avoids e (Pure.pure a : Res α) := nofun

theorem Avoids.bind {x : Res α} {f : α → Res β} (hx : Avoids e x) (hf : ∀ a, x = .ok a → Avoids e (f a)) :
    Avoids e (x >>= f) := by
  cases x with
  | error e' => exact fun h => hx (by injection h with h; rw [h])
  | ok a => exact hf a rfl

/-- a checked operation reverts with the panic of its check only -/
theorem avoids_ite {p : Prop} [Decidable p] {a : α} {e' : Revert} (h : p ∨ e' ≠ e) :
    Avoids e (if p then .ok a else .error e' : Res α) := by
  split_ifs with hp
  · exact .ok a
  · exact fun heq => (h.resolve_left hp) (Except.error.inj heq)

theorem avoids_fits (he : .panic 0x11 ≠ e) (w x : ℕ) : Avoids e (fits w x) := avoids_ite (.inr he)
theorem avoids_usub (he : .panic 0x11 ≠ e) (x y : ℕ) : Avoids e (usub x y) := avoids_ite (.inr he)
theorem avoids_i128 (he : .panic 0x11 ≠ e) (x : ℤ) : Avoids e (i128 x) := avoids_ite (.inr he)
theorem avoids_inBounds (he : .panic 0x32 ≠ e) (i n : ℕ) : Avoids e (inBounds i n) := avoids_ite (.inr he)

theorem avoids_udiv {x y : ℕ} (h : 0 < y ∨ .panic 0x12 ≠ e) : Avoids e (udiv x y) := avoids_ite h

end Avoids

/-! ## Calls that revert for known reasons -/

/-- the call reverts, if it does, for a reason in `R` -/
def FailsFor (R : Revert → Prop) (r : Res α) : Prop := ∀ e, r = .error e → R e

section FailsFor

variable {R : Revert → Prop}

theorem FailsFor.ok (a : α) : FailsFor R (Except.ok a : Res α) := fun _ he => by cases he
theorem FailsFor.pure (a : α) : FailsFor R (Pure.pure a : Res α) := fun _ he => by cases he

theorem FailsFor.of_succeeds {r : Res α} (h : ∃ a, r = .ok a) : FailsFor R r := by
  obtain ⟨a, rfl⟩ := h
  exact .ok a

theorem FailsFor.bind {x : Res α} {f : α → Res β} (hx : FailsFor R x) (hf : ∀ a, x = .ok a → FailsFor R (f a)) :
    FailsFor R (x >>= f) := by
  cases x with
  | error e => exact fun e' he => hx e' (by injection he with he; rw [he])
  | ok a => exact hf a rfl

/-- a checked operation reverts with the reason of its check only -/
theorem failsFor_ite {p : Prop} [Decidable p] {a : α} {e : Revert} (h : p ∨ R e) :
    FailsFor R (if p then .ok a else .error e : Res α) := by
  split_ifs with hp
  · exact .ok a
  · intro e' he
    cases he
    exact h.resolve_left hp

theorem failsFor_require {p : Prop} [Decidable p] {m : String} (h : p ∨ R (.error m)) : FailsFor R (require p m) :=
  failsFor_ite h

theorem failsFor_assert {p : Prop} [Decidable p] (h : p) : FailsFor R (assert p) := failsFor_ite (.inl h)

theorem failsFor_udiv {x y : ℕ} (h : 0 < y) : FailsFor R (udiv x y) := failsFor_ite (.inl h)

variable (h : R (.panic 0x11))

include h

theorem failsFor_fits (w x : ℕ) : FailsFor R (fits w x) := failsFor_ite (.inr h)
theorem failsFor_uadd (x y : ℕ) : FailsFor R (uadd x y) := failsFor_fits h _ _
theorem failsFor_umul (x y : ℕ) : FailsFor R (umul x y) := failsFor_fits h _ _
theorem failsFor_uadd128 (x y : ℕ) : FailsFor R (uadd128 x y) := failsFor_fits h _ _
theorem failsFor_usub (x y : ℕ) : FailsFor R (usub x y) := failsFor_ite (.inr h)

end FailsFor

/-- the same result, or an error with a reason from `R` -/
def AgreesUpTo (R : Revert → Prop) (x y : Res α) : Prop := x = y ∨ ∃ e, x = .error e ∧ R e

theorem AgreesUpTo.refl {R : Revert → Prop} (x : Res α) : AgreesUpTo R x x := .inl rfl

theorem AgreesUpTo.bind {R : Revert → Prop} {x y : Res α} {f g : α → Res β} (h : AgreesUpTo R x y)
    (hf : ∀ a, y = .ok a → AgreesUpTo R (f a) (g a)) : AgreesUpTo R (x >>= f) (y >>= g) := by
  rcases h with rfl | ⟨e, rfl, he⟩
  · cases x with
    | error e => exact .inl rfl
    | ok a => exact hf a rfl
  · exact .inr ⟨e, rfl, he⟩

theorem AgreesUpTo.failsFor {R : Revert → Prop} {x y : Res α} (h : AgreesUpTo R x y) (hy : FailsFor R y) : FailsFor R x := by
  rcases h with rfl | ⟨e, rfl, he⟩
  · exact hy
  · intro e' he'
    cases he'
    exact he

/-! ## Failed assertions -/

/-- the call does not end in a failed `assert` -/
def AssertsHold (r : Res α) : Prop := r ≠ .error (.panic 0x01)

theorem AssertsHold.ok (a : α) : AssertsHold (Except.ok a : Res α) := Avoids.ok a
theorem AssertsHold.pure (a : α) : AssertsHold (Pure.pure a : Res α) := Avoids.pure a

theorem AssertsHold.bind {x : Res α} {f : α → Res β} (hx : AssertsHold x) (hf : ∀ a, x = .ok a → AssertsHold (f a)) :
    AssertsHold (x >>= f) := Avoids.bind hx hf

theorem assertsHold_fits (w x : ℕ) : AssertsHold (fits w x) := avoids_fits (by decide) w x

theorem assertsHold_uadd (x y : ℕ) : AssertsHold (uadd x y) := assertsHold_fits _ _
theorem assertsHold_umul (x y : ℕ) : AssertsHold (umul x y) := assertsHold_fits _ _
theorem assertsHold_uadd128 (x y : ℕ) : AssertsHold (uadd128 x y) := assertsHold_fits _ _

theorem assertsHold_usub (x y : ℕ) : AssertsHold (usub x y) := avoids_usub (by decide) x y

theorem assertsHold_udiv (x y : ℕ) : AssertsHold (udiv x y) := avoids_udiv (.inr (by decide))

theorem assertsHold_assert {p : Prop} [Decidable p] (h : p) : AssertsHold (assert p) := avoids_ite (.inl h)

/-! ## Calls that go through -/

@[simp] theorem succeeds_ok (a : α) : Succeeds (Except.ok a : Res α) := ⟨a, rfl⟩
@[simp] theorem succeeds_pure (a : α) : Succeeds (Pure.pure a : Res α) := ⟨a, rfl⟩

theorem Succeeds.bind {x : Res α} {f : α → Res β} (hx : Succeeds x) (hf : ∀ a, x = .ok a → Succeeds (f a)) :
    Succeeds (x >>= f) := by
  obtain ⟨a, rfl⟩ := hx
  exact hf a rfl

/-- a call goes through only if its first part does -/
theorem Succeeds.left {x : Res α} {f : α → Res β} (h : Succeeds (x >>= f)) : Succeeds x := by
  obtain ⟨b, hb⟩ := h
  obtain ⟨a, ha, -⟩ := bind_ok.1 hb
  exact ⟨a, ha⟩

theorem succeeds_bind {x : Res α} {f : α → Res β} : Succeeds (x >>= f) ↔ ∃ a, x = .ok a ∧ Succeeds (f a) := by
  constructor
  · rintro ⟨b, hb⟩
    obtain ⟨a, ha, hfa⟩ := bind_ok.1 hb
    exact ⟨a, ha, b, hfa⟩
  · rintro ⟨a, rfl, h⟩
    exact h

theorem succeeds_require {p : Prop} [Decidable p] {m : String} {f : Unit → Res β} :
    Succeeds (require p m >>= f) ↔ p ∧ Succeeds (f ()) := by
  constructor
  · rintro ⟨b, hb⟩
    obtain ⟨hp, hfa⟩ := require_bind.1 hb
    exact ⟨hp, b, hfa⟩
  · rintro ⟨hp, b, hb⟩
    exact ⟨b, require_bind.2 ⟨hp, hb⟩⟩

/-- **What is pending was issued.** What is pending after a run was issued by one of its calls, and no successful call
since then cleared it. -/
theorem run_issued {σ κ τ : Type} {exec : σ → κ → Res σ} (Pending : σ → τ → Prop) (issues clears : κ → τ → Prop) {s : σ}
    {x : τ} (h0 : ¬ Pending s x)
    (hstep : ∀ s c s', exec s c = .ok s' → Pending s' x → issues c x ∨ Pending s x ∧ ¬ clears c x)
    (cs : List κ) (hx : Pending (run exec s cs) x) :
    ∃ j c, cs[j]? = some c ∧ issues c x ∧ Succeeds (exec (run exec s (cs.take j)) c) ∧
      ∀ i c', j < i → cs[i]? = some c' → Succeeds (exec (run exec s (cs.take i)) c') → ¬ clears c' x := by
  induction cs using List.reverseRecOn with
  | nil => exact absurd hx h0
  | append_singleton cs c ih =>
    rw [run_snoc] at hx
    -- a call of the longer list is the last one or a call of the shorter list, in the same state
    have hlast : (cs ++ [c])[cs.length]? = some c := by simp
    have hcall : ∀ {i c'}, (cs ++ [c])[i]? = some c' → i < cs.length ∧ cs[i]? = some c' ∨ i = cs.length ∧ c' = c := by
      intro i c' hc'
      rcases Nat.lt_or_ge i cs.length with hlt | hge
      · exact .inl ⟨hlt, by rwa [List.getElem?_append_left hlt] at hc'⟩
      · have hle := (List.getElem?_eq_some_iff.1 hc').1
        simp only [List.length_append, List.length_singleton] at hle
        obtain rfl : i = cs.length := by omega
        exact .inr ⟨rfl, by simpa using hc'.symm⟩
    have htake : ∀ {i}, i ≤ cs.length → (cs ++ [c]).take i = cs.take i := fun h => List.take_append_of_le_length h
    -- an earlier call issued it, and the last one did not clear it
    have hearlier : Pending (run exec s cs) x → (Succeeds (exec (run exec s cs) c) → ¬ clears c x) →
        ∃ j c', (cs ++ [c])[j]? = some c' ∧ issues c' x ∧ Succeeds (exec (run exec s ((cs ++ [c]).take j)) c') ∧
          ∀ i d, j < i → (cs ++ [c])[i]? = some d → Succeeds (exec (run exec s ((cs ++ [c]).take i)) d) →
            ¬ clears d x := by
      intro hp hc
      obtain ⟨j, c', hj, hissues, hok, hrest⟩ := ih hp
      have hlt : j < cs.length := (List.getElem?_eq_some_iff.1 hj).1
      refine ⟨j, c', by rwa [List.getElem?_append_left hlt], hissues, by rwa [htake hlt.le], ?_⟩
      intro i d hji hd
      rcases hcall hd with ⟨hi, hd⟩ | ⟨rfl, rfl⟩
      · rw [htake hi.le]
        exact hrest i d hji hd
      · rw [htake le_rfl, List.take_length]
        exact hc
    cases hc : exec (run exec s cs) c with
    | error e =>
      rw [hc] at hx
      exact hearlier hx fun ⟨s', hs'⟩ => absurd hs' (by rw [hc]; nofun)
    | ok s' =>
      rw [hc] at hx
      rcases hstep _ c s' hc hx with hissues | ⟨hp, hclears⟩
      · refine ⟨cs.length, c, hlast, hissues, ⟨s', by rw [htake le_rfl, List.take_length]; exact hc⟩, ?_⟩
        intro i d hi hd
        rcases hcall hd with ⟨hlt, -⟩ | ⟨rfl, -⟩
        · omega
        · omega
      · exact hearlier hp fun _ => hclears

end SimContracts.Solidity
