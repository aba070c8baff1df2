/-
The oracle of the system (`contracts/PriceFeed.sol`): API3 as primary feed, Pyth as fallback, the last good price when
neither can be used.

`fetchPrice` is the source's five-status machine, exit by exit, over arbitrary oracle outcomes: `none` is a feed whose
call reverts. Both feeds quote ETH/USD; `storePrice` converts to wstETH/USD with `rateReceiver.rate()` before it writes
`lastGoodPrice`, and the store helpers return the price they were given.

- `fetchPrice_cases`: a successful call stores the price of API3, or the price of Pyth, or nothing, and which of the
  three it is depends on `readsAPI3` and `readsPyth` only.
- `fetchPrice_returns_lastGoodPrice_iff`: the value handed to the callers is the stored wstETH/USD price exactly when
  no live price is read, or the rate leaves that price unchanged.
- `history_trusted`: along any history of fetches, a stored price comes from a feed that is usable in that call, the
  switch back to API3 needs two usable feeds with similar prices, and without a usable feed the last good price stays.
-/
import SimContracts.Base

namespace SimContracts.PriceFeed

open Solidity

/-! ## Model -/

def TARGET_DIGITS : ℕ := 18
/-- 4 hours -/
def TIMEOUT : ℕ := 14400
/-- 5% -/
def MAX_PRICE_DIFFERENCE_BETWEEN_ORACLES : ℕ := 5 * 10 ^ 16

/-- an answer of `api3Proxy.read()`: an `int224` and a `uint32` -/
structure API3Response where
  value : ℤ
  timestamp : ℕ
  value_ge : -2 ^ 223 ≤ value
  value_lt : value < 2 ^ 223
  timestamp_lt : timestamp < 2 ^ 32

/-- the fields of `PythStructs.Price` that are read: an `int64`, an `int32` and a `uint256` -/
structure PythPrice where
  price : ℤ
  expo : ℤ
  publishTime : ℕ
  price_ge : -2 ^ 63 ≤ price
  price_lt : price < 2 ^ 63
  expo_ge : -2 ^ 31 ≤ expo
  expo_lt : expo < 2 ^ 31
  publishTime_lt : publishTime < 2 ^ 256

inductive Status where
  | api3Working
  | usingPythAPI3Untrusted
  | usingPythAPI3Frozen
  | bothOraclesUntrusted
  | usingAPI3PythUntrusted
deriving DecidableEq, Repr

/-- the contract's storage -/
structure Feed where
  lastGoodPrice : ℕ
  status : Status
deriving DecidableEq, Repr

/-- the `catch` branch returns zeros -/
def getAPI3Response (o : Option API3Response) : API3Response :=
  o.getD ⟨0, 0, by norm_num, by norm_num, by norm_num⟩

def getPythResponse (o : Option PythPrice) : PythPrice :=
  o.getD ⟨0, 0, 0, by norm_num, by norm_num, by norm_num, by norm_num, by norm_num⟩

def api3IsBroken (now : ℕ) (r : API3Response) : Bool := r.value ≤ 0 || r.timestamp = 0 || now < r.timestamp

def api3IsFrozen (now : ℕ) (r : API3Response) : Res Bool := do
  let age ← usub now r.timestamp
  pure (TIMEOUT < age)

def pythIsBroken (now : ℕ) (r : PythPrice) : Bool := r.price ≤ 0 || r.publishTime = 0 || now < r.publishTime

def pythIsFrozen (now : ℕ) (r : PythPrice) : Res Bool := do
  let age ← usub now r.publishTime
  pure (TIMEOUT < age)

/-- `uint(uint224(price_))` -/
def scaleAPI3PriceByDigits (r : API3Response) : ℕ := (r.value % 2 ^ 224).toNat

/-- negation of an `int32`, checked -/
def negInt32 (x : ℤ) : Res ℤ := if x = -2 ^ 31 then .error (.panic 0x11) else .ok (-x)

/-- `uint(uint64(price)) * 10**(TARGET_DIGITS - uint(uint32(-expo)))`; the cast to `uint32` wraps -/
def scalePythPriceByDigits (r : PythPrice) : Res ℕ := do
  let digits ← usub TARGET_DIGITS ((← negInt32 r.expo) % 2 ^ 32).toNat
  umul (r.price % 2 ^ 64).toNat (10 ^ digits)

def bothOraclesSimilarPrice (a : API3Response) (p : PythPrice) : Res Bool := do
  let scaledAPI3Price := scaleAPI3PriceByDigits a
  let scaledPythPrice ← scalePythPriceByDigits p
  let minPrice := min scaledPythPrice scaledAPI3Price
  let maxPrice := max scaledPythPrice scaledAPI3Price
  let percentPriceDifference ← udiv (← umul (← usub maxPrice minPrice) DECIMAL_PRECISION) minPrice
  pure (percentPriceDifference ≤ MAX_PRICE_DIFFERENCE_BETWEEN_ORACLES)

def bothOraclesLiveAndUnbrokenAndSimilarPrice (now : ℕ) (a : API3Response) (p : PythPrice) : Res Bool := do
  if pythIsBroken now p then return false
  if ← pythIsFrozen now p then return false
  if api3IsBroken now a then return false
  if ← api3IsFrozen now a then return false
  bothOraclesSimilarPrice a p

/-- writes the wstETH/USD price -/
def storePrice (s : Feed) (rate currentPrice : ℕ) : Res Feed := do
  let WSTETHPrice ← udiv (← umul currentPrice rate) (10 ^ 18)
  pure { s with lastGoodPrice := WSTETHPrice }

def storeAPI3Price (s : Feed) (rate : ℕ) (a : API3Response) : Res (ℕ × Feed) := do
  let scaledPrice := scaleAPI3PriceByDigits a
  let s ← storePrice s rate scaledPrice
  pure (scaledPrice, s)

def storePythPrice (s : Feed) (rate : ℕ) (p : PythPrice) : Res (ℕ × Feed) := do
  let scaledPrice ← scalePythPriceByDigits p
  let s ← storePrice s rate scaledPrice
  pure (scaledPrice, s)

def changeStatus (s : Feed) (status : Status) : Feed := { s with status }

/-- `return lastGoodPrice` -/
def lastGood (s : Feed) : Res (ℕ × Feed) := .ok (s.lastGoodPrice, s)

/-- CASE 1: the last price came from API3 -/
def fetchAPI3Working (s : Feed) (now rate : ℕ) (a : API3Response) (p : PythPrice) : Res (ℕ × Feed) := do
  if api3IsBroken now a then
    if pythIsBroken now p then lastGood (changeStatus s .bothOraclesUntrusted)
    else if ← pythIsFrozen now p then lastGood (changeStatus s .usingPythAPI3Untrusted)
    else storePythPrice (changeStatus s .usingPythAPI3Untrusted) rate p
  else if ← api3IsFrozen now a then
    if pythIsBroken now p then lastGood (changeStatus s .usingAPI3PythUntrusted)
    else if ← pythIsFrozen now p then lastGood (changeStatus s .usingPythAPI3Frozen)
    else storePythPrice (changeStatus s .usingPythAPI3Frozen) rate p
  else if pythIsBroken now p then storeAPI3Price (changeStatus s .usingAPI3PythUntrusted) rate a
  else storeAPI3Price s rate a

/-- CASE 2: the last price came from Pyth, API3 untrusted -/
def fetchUsingPythAPI3Untrusted (s : Feed) (now rate : ℕ) (a : API3Response) (p : PythPrice) : Res (ℕ × Feed) := do
  if ← bothOraclesLiveAndUnbrokenAndSimilarPrice now a p then storeAPI3Price (changeStatus s .api3Working) rate a
  else if pythIsBroken now p then lastGood (changeStatus s .bothOraclesUntrusted)
  else if ← pythIsFrozen now p then lastGood s
  else storePythPrice s rate p

/-- CASE 3: both oracles were untrusted -/
def fetchBothOraclesUntrusted (s : Feed) (now rate : ℕ) (a : API3Response) (p : PythPrice) : Res (ℕ × Feed) := do
  if ← bothOraclesLiveAndUnbrokenAndSimilarPrice now a p then storeAPI3Price (changeStatus s .api3Working) rate a
  else lastGood s

/-- CASE 4: using Pyth while API3 is frozen -/
def fetchUsingPythAPI3Frozen (s : Feed) (now rate : ℕ) (a : API3Response) (p : PythPrice) : Res (ℕ × Feed) := do
  if api3IsBroken now a then
    if pythIsBroken now p then lastGood (changeStatus s .bothOraclesUntrusted)
    else if ← pythIsFrozen now p then lastGood (changeStatus s .usingPythAPI3Untrusted)
    else storePythPrice (changeStatus s .usingPythAPI3Untrusted) rate p
  else if ← api3IsFrozen now a then
    if pythIsBroken now p then lastGood (changeStatus s .usingAPI3PythUntrusted)
    else if ← pythIsFrozen now p then lastGood s
    else storePythPrice s rate p
  else if pythIsBroken now p then storeAPI3Price (changeStatus s .usingAPI3PythUntrusted) rate a
  else if ← pythIsFrozen now p then lastGood s
  else if ← bothOraclesSimilarPrice a p then storeAPI3Price (changeStatus s .api3Working) rate a
  else storePythPrice (changeStatus s .usingPythAPI3Untrusted) rate p

/-- CASE 5: using API3, Pyth untrusted -/
def fetchUsingAPI3PythUntrusted (s : Feed) (now rate : ℕ) (a : API3Response) (p : PythPrice) : Res (ℕ × Feed) := do
  if api3IsBroken now a then lastGood (changeStatus s .bothOraclesUntrusted)
  else if ← api3IsFrozen now a then lastGood s
  else if ← bothOraclesLiveAndUnbrokenAndSimilarPrice now a p then
    storeAPI3Price (changeStatus s .api3Working) rate a
  else storeAPI3Price s rate a

/-- the price the callers receive, and the storage after the call -/
def fetchPrice (s : Feed) (now rate : ℕ) (api3 : Option API3Response) (pyth : Option PythPrice) : Res (ℕ × Feed) :=
  let a := getAPI3Response api3
  let p := getPythResponse pyth
  match s.status with
  | .api3Working => fetchAPI3Working s now rate a p
  | .usingPythAPI3Untrusted => fetchUsingPythAPI3Untrusted s now rate a p
  | .bothOraclesUntrusted => fetchBothOraclesUntrusted s now rate a p
  | .usingPythAPI3Frozen => fetchUsingPythAPI3Frozen s now rate a p
  | .usingAPI3PythUntrusted => fetchUsingAPI3PythUntrusted s now rate a p

/-! ## Which price a call reads -/

/-- API3 is neither broken nor frozen -/
def API3Usable (now : ℕ) (a : API3Response) : Prop := api3IsBroken now a = false ∧ api3IsFrozen now a = .ok false

/-- Pyth is neither broken nor frozen -/
def PythUsable (now : ℕ) (p : PythPrice) : Prop := pythIsBroken now p = false ∧ pythIsFrozen now p = .ok false

def SimilarPrice (a : API3Response) (p : PythPrice) : Prop := bothOraclesSimilarPrice a p = .ok true

instance (now : ℕ) (a : API3Response) : Decidable (API3Usable now a) := inferInstanceAs (Decidable (_ ∧ _))
instance (now : ℕ) (p : PythPrice) : Decidable (PythUsable now p) := inferInstanceAs (Decidable (_ ∧ _))
instance (a : API3Response) (p : PythPrice) : Decidable (SimilarPrice a p) := inferInstanceAs (Decidable (_ = _))

/-- the statuses and responses for which the live API3 price is used -/
def readsAPI3 (now : ℕ) (a : API3Response) (p : PythPrice) : Status → Prop
  | .api3Working => API3Usable now a
  | .usingPythAPI3Untrusted => API3Usable now a ∧ PythUsable now p ∧ SimilarPrice a p
  | .bothOraclesUntrusted => API3Usable now a ∧ PythUsable now p ∧ SimilarPrice a p
  | .usingPythAPI3Frozen =>
    API3Usable now a ∧ (pythIsBroken now p = true ∨ PythUsable now p ∧ SimilarPrice a p)
  | .usingAPI3PythUntrusted => API3Usable now a

/-- the statuses and responses for which the live Pyth price is used -/
def readsPyth (now : ℕ) (a : API3Response) (p : PythPrice) : Status → Prop
  | .api3Working => ¬ API3Usable now a ∧ PythUsable now p
  | .usingPythAPI3Untrusted => PythUsable now p ∧ ¬ (API3Usable now a ∧ SimilarPrice a p)
  | .bothOraclesUntrusted => False
  | .usingPythAPI3Frozen => PythUsable now p ∧ ¬ (API3Usable now a ∧ SimilarPrice a p)
  | .usingAPI3PythUntrusted => False

/-- what a successful call did: stored a live price, or kept the last good one -/
def Outcome (s s' : Feed) (rate price : ℕ) (a : API3Response) (p : PythPrice) (fromAPI3 fromPyth : Prop) : Prop :=
  (fromAPI3 ∧ price = scaleAPI3PriceByDigits a ∧ s'.lastGoodPrice = price * rate / 10 ^ 18) ∨
  (fromPyth ∧ scalePythPriceByDigits p = .ok price ∧ s'.lastGoodPrice = price * rate / 10 ^ 18) ∨
  (¬ fromAPI3 ∧ ¬ fromPyth ∧ price = s.lastGoodPrice ∧ s'.lastGoodPrice = s.lastGoodPrice)

section Cases

variable {s s' : Feed} {now rate price : ℕ} {a : API3Response} {p : PythPrice}

theorem storePrice_ok {c : ℕ} (h : storePrice s rate c = .ok s') : s'.lastGoodPrice = c * rate / 10 ^ 18 := by
  simp only [storePrice, umul_bind, udiv_bind, pure_ok] at h
  rw [← h.2.2]

theorem storeAPI3Price_ok (h : storeAPI3Price s rate a = .ok (price, s')) :
    price = scaleAPI3PriceByDigits a ∧ s'.lastGoodPrice = price * rate / 10 ^ 18 := by
  simp only [storeAPI3Price, bind_ok, pure_ok, Prod.mk.injEq] at h
  obtain ⟨_, hs, rfl, rfl⟩ := h
  exact ⟨rfl, storePrice_ok hs⟩

theorem storePythPrice_ok (h : storePythPrice s rate p = .ok (price, s')) :
    scalePythPriceByDigits p = .ok price ∧ s'.lastGoodPrice = price * rate / 10 ^ 18 := by
  simp only [storePythPrice, bind_ok, pure_ok, Prod.mk.injEq] at h
  obtain ⟨_, hp, _, hs, rfl, rfl⟩ := h
  exact ⟨hp, storePrice_ok hs⟩

theorem lastGood_ok (h : lastGood s = .ok (price, s')) :
    price = s.lastGoodPrice ∧ s'.lastGoodPrice = s.lastGoodPrice := by
  cases h
  exact ⟨rfl, rfl⟩

/-- an oracle that is not broken has a past timestamp, so its age is computed without a revert -/
theorem api3_cases (now : ℕ) (a : API3Response) :
    api3IsBroken now a = true ∨ (api3IsBroken now a = false ∧ api3IsFrozen now a = .ok true) ∨ API3Usable now a := by
  cases hb : api3IsBroken now a with
  | true => exact .inl rfl
  | false =>
    have hle : a.timestamp ≤ now := by simp [api3IsBroken] at hb; omega
    have hf : api3IsFrozen now a = .ok (decide (TIMEOUT < now - a.timestamp)) := by
      simp only [api3IsFrozen, usub_bind, pure_ok]
      exact ⟨hle, trivial⟩
    right
    cases hd : decide (TIMEOUT < now - a.timestamp) <;> simp_all [API3Usable]

theorem pyth_cases (now : ℕ) (p : PythPrice) :
    pythIsBroken now p = true ∨ (pythIsBroken now p = false ∧ pythIsFrozen now p = .ok true) ∨ PythUsable now p := by
  cases hb : pythIsBroken now p with
  | true => exact .inl rfl
  | false =>
    have hle : p.publishTime ≤ now := by simp [pythIsBroken] at hb; omega
    have hf : pythIsFrozen now p = .ok (decide (TIMEOUT < now - p.publishTime)) := by
      simp only [pythIsFrozen, usub_bind, pure_ok]
      exact ⟨hle, trivial⟩
    right
    cases hd : decide (TIMEOUT < now - p.publishTime) <;> simp_all [PythUsable]

theorem bothOraclesLive_ok {r : Bool} (h : bothOraclesLiveAndUnbrokenAndSimilarPrice now a p = .ok r) :
    r = true ↔ API3Usable now a ∧ PythUsable now p ∧ SimilarPrice a p := by
  rcases pyth_cases now p with hP | ⟨hP, hP'⟩ | ⟨hP, hP'⟩ <;>
    rcases api3_cases now a with hA | ⟨hA, hA'⟩ | ⟨hA, hA'⟩ <;>
    simp_all [bothOraclesLiveAndUnbrokenAndSimilarPrice, ok_bind, API3Usable, PythUsable, SimilarPrice]

section Outcome

variable {A P : Prop} {s₁ : Feed}

theorem Outcome.api3 (hA : A) (h : storeAPI3Price s₁ rate a = .ok (price, s')) : Outcome s s' rate price a p A P :=
  .inl ⟨hA, storeAPI3Price_ok h⟩

theorem Outcome.pyth (hP : P) (h : storePythPrice s₁ rate p = .ok (price, s')) : Outcome s s' rate price a p A P :=
  .inr (.inl ⟨hP, storePythPrice_ok h⟩)

theorem Outcome.kept (hA : ¬ A) (hP : ¬ P) (h : lastGood s₁ = .ok (price, s'))
    (hs : s₁.lastGoodPrice = s.lastGoodPrice) : Outcome s s' rate price a p A P :=
  .inr (.inr ⟨hA, hP, (lastGood_ok h).1.trans hs, (lastGood_ok h).2.trans hs⟩)

end Outcome

theorem fetchAPI3Working_ok (h : fetchAPI3Working s now rate a p = .ok (price, s')) :
    Outcome s s' rate price a p (readsAPI3 now a p .api3Working) (readsPyth now a p .api3Working) := by
  simp only [readsAPI3, readsPyth, API3Usable, PythUsable]
  rcases api3_cases now a with hA | ⟨hA, hA'⟩ | ⟨hA, hA'⟩ <;>
    rcases pyth_cases now p with hP | ⟨hP, hP'⟩ | ⟨hP, hP'⟩ <;>
    simp only [fetchAPI3Working, *, ok_bind, Bool.false_eq_true, ite_true, ite_false] at h
  all_goals first
    | exact .api3 (by simp [*]) h
    | exact .pyth (by simp [*]) h
    | exact .kept (by simp [*]) (by simp [*]) h rfl

theorem fetchUsingPythAPI3Untrusted_ok (h : fetchUsingPythAPI3Untrusted s now rate a p = .ok (price, s')) :
    Outcome s s' rate price a p (readsAPI3 now a p .usingPythAPI3Untrusted)
      (readsPyth now a p .usingPythAPI3Untrusted) := by
  simp only [fetchUsingPythAPI3Untrusted, bind_ok] at h
  obtain ⟨both, hboth, h⟩ := h
  have hb := bothOraclesLive_ok hboth
  simp only [readsAPI3, readsPyth]
  split_ifs at h with h1 h2
  · exact .api3 (hb.1 h1) h
  · exact .kept (fun e => h1 (hb.2 e)) (by simp [PythUsable, h2]) h rfl
  · obtain ⟨f, hf, h⟩ := bind_ok.1 h
    split_ifs at h with h3
    · exact .kept (fun e => h1 (hb.2 e)) (by simp [PythUsable, hf, h3]) h rfl
    · have hP : PythUsable now p := ⟨by simpa using h2, by simpa [hf] using h3⟩
      exact .pyth ⟨hP, fun e => h1 (hb.2 ⟨e.1, hP, e.2⟩)⟩ h

theorem fetchBothOraclesUntrusted_ok (h : fetchBothOraclesUntrusted s now rate a p = .ok (price, s')) :
    Outcome s s' rate price a p (readsAPI3 now a p .bothOraclesUntrusted)
      (readsPyth now a p .bothOraclesUntrusted) := by
  simp only [fetchBothOraclesUntrusted, bind_ok] at h
  obtain ⟨both, hboth, h⟩ := h
  have hb := bothOraclesLive_ok hboth
  split_ifs at h with h1
  · exact .api3 (hb.1 h1) h
  · exact .kept (fun e => h1 (hb.2 e)) not_false h rfl

theorem fetchUsingPythAPI3Frozen_ok (h : fetchUsingPythAPI3Frozen s now rate a p = .ok (price, s')) :
    Outcome s s' rate price a p (readsAPI3 now a p .usingPythAPI3Frozen)
      (readsPyth now a p .usingPythAPI3Frozen) := by
  simp only [readsAPI3, readsPyth, API3Usable, PythUsable, SimilarPrice]
  rcases api3_cases now a with hA | ⟨hA, hA'⟩ | ⟨hA, hA'⟩ <;>
    rcases pyth_cases now p with hP | ⟨hP, hP'⟩ | ⟨hP, hP'⟩ <;>
    simp only [fetchUsingPythAPI3Frozen, *, ok_bind, Bool.false_eq_true, ite_true, ite_false] at h
  all_goals first
    | exact .api3 (by simp [*]) h
    | exact .pyth (by simp [*]) h
    | exact .kept (by simp [*]) (by simp [*]) h rfl
    | skip
  -- both feeds usable: the price comparison decides
  obtain ⟨similar, hs, h⟩ := bind_ok.1 h
  split_ifs at h with h1
  · exact .api3 (by simp [*]) h
  · exact .pyth (by simp [*]) h

theorem fetchUsingAPI3PythUntrusted_ok (h : fetchUsingAPI3PythUntrusted s now rate a p = .ok (price, s')) :
    Outcome s s' rate price a p (readsAPI3 now a p .usingAPI3PythUntrusted)
      (readsPyth now a p .usingAPI3PythUntrusted) := by
  simp only [readsAPI3, readsPyth, API3Usable]
  rcases api3_cases now a with hA | ⟨hA, hA'⟩ | ⟨hA, hA'⟩ <;>
    simp only [fetchUsingAPI3PythUntrusted, *, ok_bind, Bool.false_eq_true, ite_true, ite_false] at h
  · exact .kept (by simp [*]) not_false h rfl
  · exact .kept (by simp [*]) not_false h rfl
  · obtain ⟨both, -, h⟩ := bind_ok.1 h
    split_ifs at h
    · exact .api3 (by simp [*]) h
    · exact .api3 (by simp [*]) h

end Cases

/-- **What a fetch does.** A successful call stores the price of API3, or the price of Pyth, or keeps the last good
price; which one depends on the status and on the two responses only. -/
theorem fetchPrice_cases (s s' : Feed) (now rate price : ℕ) (api3 : Option API3Response) (pyth : Option PythPrice)
    (h : fetchPrice s now rate api3 pyth = .ok (price, s')) :
    Outcome s s' rate price (getAPI3Response api3) (getPythResponse pyth)
      (readsAPI3 now (getAPI3Response api3) (getPythResponse pyth) s.status)
      (readsPyth now (getAPI3Response api3) (getPythResponse pyth) s.status) := by
  simp only [fetchPrice] at h
  cases hs : s.status <;> rw [hs] at h
  · exact fetchAPI3Working_ok h
  · exact fetchUsingPythAPI3Untrusted_ok h
  · exact fetchUsingPythAPI3Frozen_ok h
  · exact fetchBothOraclesUntrusted_ok h
  · exact fetchUsingAPI3PythUntrusted_ok h

/-! ## The unit of the returned price -/

/-- multiplying `price` by `rate / 1e18`, rounded down, gives `price` back -/
def RateKeeps (rate price : ℕ) : Prop := 10 ^ 18 ≤ rate ∧ price * (rate - 10 ^ 18) < 10 ^ 18

theorem rateKeeps_iff {rate price : ℕ} (hp : 0 < price) : price = price * rate / 10 ^ 18 ↔ RateKeeps rate price := by
  rw [eq_comm, Nat.div_eq_iff (by norm_num), RateKeeps]
  constructor
  · rintro ⟨h1, h2⟩
    have hr : 10 ^ 18 ≤ rate := by
      by_contra hr
      have : price * rate < price * 10 ^ 18 := Nat.mul_lt_mul_of_pos_left (by omega) hp
      omega
    refine ⟨hr, ?_⟩
    rw [Nat.mul_sub]
    omega
  · rintro ⟨hr, h⟩
    have : price * 10 ^ 18 ≤ price * rate := Nat.mul_le_mul_left _ hr
    rw [Nat.mul_sub] at h
    omega

theorem api3Usable_pos {now : ℕ} {a : API3Response} (h : API3Usable now a) : 0 < scaleAPI3PriceByDigits a := by
  have hv : 0 < a.value := by
    have := h.1
    simp only [api3IsBroken, Bool.or_eq_false_iff, decide_eq_false_iff_not] at this
    omega
  have hlt := a.value_lt
  have : a.value % 2 ^ 224 = a.value := Int.emod_eq_of_lt hv.le (by omega)
  simp only [scaleAPI3PriceByDigits, this]
  omega

theorem pythUsable_pos {now x : ℕ} {p : PythPrice} (h : PythUsable now p) (hx : scalePythPriceByDigits p = .ok x) :
    0 < x := by
  have hv : 0 < p.price := by
    have := h.1
    simp only [pythIsBroken, Bool.or_eq_false_iff, decide_eq_false_iff_not] at this
    omega
  have hlt := p.price_lt
  have hm : p.price % 2 ^ 64 = p.price := Int.emod_eq_of_lt hv.le (by omega)
  simp only [scalePythPriceByDigits, bind_ok, umul_ok, hm] at hx
  obtain ⟨_, _, d, _, _, rfl⟩ := hx
  exact Nat.mul_pos (by omega) (by positivity)

theorem readsAPI3_usable {now : ℕ} {a : API3Response} {p : PythPrice} {st : Status} (h : readsAPI3 now a p st) :
    API3Usable now a := by
  cases st with
  | api3Working => exact h
  | usingAPI3PythUntrusted => exact h
  | _ => exact h.1

theorem readsPyth_usable {now : ℕ} {a : API3Response} {p : PythPrice} {st : Status} (h : readsPyth now a p st) :
    PythUsable now p := by
  cases st with
  | api3Working => exact h.2
  | usingPythAPI3Untrusted => exact h.1
  | usingPythAPI3Frozen => exact h.1
  | _ => exact h.elim

theorem not_reads_both {now : ℕ} {a : API3Response} {p : PythPrice} {st : Status} (hA : readsAPI3 now a p st)
    (hP : readsPyth now a p st) : False := by
  cases st with
  | api3Working => exact hP.1 hA
  | usingPythAPI3Untrusted => exact hP.2 ⟨hA.1, hA.2.2⟩
  | usingPythAPI3Frozen =>
    rcases hA.2 with hb | hb
    · exact absurd hP.1.1 (by simp [hb])
    · exact hP.2 ⟨hA.1, hb.2⟩
  | _ => exact hP

/-- **Unit of the fetched price.** The value a successful `fetchPrice` returns is the wstETH/USD price it leaves in
`lastGoodPrice` if and only if the call reads no live price, or the wstETH/ETH rate leaves the live price unchanged. -/
theorem fetchPrice_returns_lastGoodPrice_iff (s s' : Feed) (now rate price : ℕ) (api3 : Option API3Response)
    (pyth : Option PythPrice) (h : fetchPrice s now rate api3 pyth = .ok (price, s')) :
    price = s'.lastGoodPrice ↔
      (readsAPI3 now (getAPI3Response api3) (getPythResponse pyth) s.status →
        RateKeeps rate (scaleAPI3PriceByDigits (getAPI3Response api3))) ∧
      (readsPyth now (getAPI3Response api3) (getPythResponse pyth) s.status →
        ∀ x, scalePythPriceByDigits (getPythResponse pyth) = .ok x → RateKeeps rate x) := by
  rcases fetchPrice_cases s s' now rate price api3 pyth h with ⟨hA, hp, hs⟩ | ⟨hP, hx, hs⟩ | ⟨hA, hP, hp, hs⟩
  · subst hp
    rw [hs, rateKeeps_iff (api3Usable_pos (readsAPI3_usable hA))]
    exact ⟨fun h => ⟨fun _ => h, fun hP => (not_reads_both hA hP).elim⟩, fun h => h.1 hA⟩
  · rw [hs, rateKeeps_iff (pythUsable_pos (readsPyth_usable hP) hx)]
    refine ⟨fun h => ⟨fun hA => (not_reads_both hA hP).elim, fun _ x hx' => ?_⟩, fun h => h.2 hP price hx⟩
    rw [hx] at hx'
    cases hx'
    exact h
  · rw [hp, hs]
    exact ⟨fun _ => ⟨fun h => (hA h).elim, fun h => (hP h).elim⟩, fun _ => rfl⟩

/-- an API3 answer of 2000 USD, one second old at `now = 1001` -/
def api3At2000 : API3Response := ⟨2000 * 10 ^ 18, 1000, by norm_num, by norm_num, by norm_num⟩

/-- at the rate 1 (the fixture of the tests) the two prices agree -/
theorem fetchPrice_rate_one :
    fetchPrice ⟨0, .api3Working⟩ 1001 (10 ^ 18) (some api3At2000) none =
        .ok (2000 * 10 ^ 18, ⟨2000 * 10 ^ 18, .usingAPI3PythUntrusted⟩) ∧
      (2000 * 10 ^ 18 = 2000 * 10 ^ 18 ↔
        (readsAPI3 1001 (getAPI3Response (some api3At2000)) (getPythResponse none) .api3Working →
          RateKeeps (10 ^ 18) (scaleAPI3PriceByDigits (getAPI3Response (some api3At2000)))) ∧
        (readsPyth 1001 (getAPI3Response (some api3At2000)) (getPythResponse none) .api3Working →
          ∀ x, scalePythPriceByDigits (getPythResponse none) = .ok x → RateKeeps (10 ^ 18) x)) :=
  ⟨by decide, fetchPrice_returns_lastGoodPrice_iff ⟨0, .api3Working⟩ ⟨2000 * 10 ^ 18, .usingAPI3PythUntrusted⟩ 1001
    (10 ^ 18) (2000 * 10 ^ 18) (some api3At2000) none (by decide)⟩

/-- **The callers get ETH/USD.** At the rate 1.15, API3 working at 2000 USD: 2300 USD is stored, 2000 is returned. -/
theorem fetchPrice_returns_eth_price :
    ¬ ∀ (s s' : Feed) (now rate price : ℕ) (api3 : Option API3Response) (pyth : Option PythPrice),
      fetchPrice s now rate api3 pyth = .ok (price, s') → price = s'.lastGoodPrice := by
  intro h
  have := h ⟨2300 * 10 ^ 18, .api3Working⟩ ⟨2300 * 10 ^ 18, .usingAPI3PythUntrusted⟩ 1001 (115 * 10 ^ 16)
    (2000 * 10 ^ 18) (some api3At2000) none (by decide)
  revert this
  decide

/-! ## Histories of fetches -/

/-- one call of `fetchPrice`: its time, the wstETH/ETH rate and what the two feeds answer -/
structure Fetch where
  now : ℕ
  rate : ℕ
  api3 : Option API3Response
  pyth : Option PythPrice

def Fetch.api3Response (c : Fetch) : API3Response := getAPI3Response c.api3
def Fetch.pythResponse (c : Fetch) : PythPrice := getPythResponse c.pyth

def exec (s : Feed) (c : Fetch) : Res Feed := do
  let (_, s) ← fetchPrice s c.now c.rate c.api3 c.pyth
  pure s

/-- `lastGoodPrice` is the current price of a feed that is neither broken nor frozen, converted to wstETH/USD -/
def FromUsableFeed (c : Fetch) (lastGoodPrice : ℕ) : Prop :=
  (API3Usable c.now c.api3Response ∧
    lastGoodPrice = scaleAPI3PriceByDigits c.api3Response * c.rate / 10 ^ 18) ∨
  (PythUsable c.now c.pythResponse ∧
    ∃ price, scalePythPriceByDigits c.pythResponse = .ok price ∧ lastGoodPrice = price * c.rate / 10 ^ 18)

/-- the two feeds are unbroken, not frozen, and their prices differ by at most
`MAX_PRICE_DIFFERENCE_BETWEEN_ORACLES` of the smaller one -/
def BothUsableAndClose (c : Fetch) : Prop :=
  API3Usable c.now c.api3Response ∧ PythUsable c.now c.pythResponse ∧
    ∃ price, scalePythPriceByDigits c.pythResponse = .ok price ∧
      let x := scaleAPI3PriceByDigits c.api3Response
      (max price x - min price x) * DECIMAL_PRECISION / min price x ≤ MAX_PRICE_DIFFERENCE_BETWEEN_ORACLES

section Status

variable {s s' : Feed} {now rate price : ℕ} {a : API3Response} {p : PythPrice}

theorem storePrice_status {x : ℕ} (h : storePrice s rate x = .ok s') : s'.status = s.status := by
  simp only [storePrice, umul_bind, udiv_bind, pure_ok] at h
  rw [← h.2.2]

theorem storeAPI3Price_status (h : storeAPI3Price s rate a = .ok (price, s')) : s'.status = s.status := by
  simp only [storeAPI3Price, bind_ok, pure_ok, Prod.mk.injEq] at h
  obtain ⟨_, hs, -, rfl⟩ := h
  exact storePrice_status hs

theorem storePythPrice_status (h : storePythPrice s rate p = .ok (price, s')) : s'.status = s.status := by
  simp only [storePythPrice, bind_ok, pure_ok, Prod.mk.injEq] at h
  obtain ⟨_, -, _, hs, -, rfl⟩ := h
  exact storePrice_status hs

theorem lastGood_status (h : lastGood s = .ok (price, s')) : s'.status = s.status := by
  cases h
  rfl

theorem similarPrice_close (h : SimilarPrice a p) :
    ∃ x, scalePythPriceByDigits p = .ok x ∧
      (max x (scaleAPI3PriceByDigits a) - min x (scaleAPI3PriceByDigits a)) * DECIMAL_PRECISION /
        min x (scaleAPI3PriceByDigits a) ≤ MAX_PRICE_DIFFERENCE_BETWEEN_ORACLES := by
  obtain ⟨x, hx, h⟩ := bind_ok.1 h
  refine ⟨x, hx, ?_⟩
  simp only [usub_bind, umul_bind, udiv_bind, pure_ok, decide_eq_true_eq] at h
  exact h.2.2.2

/-- the recovery cases: only the exits behind the check of both feeds end in `api3Working` -/
theorem fetchPrice_recovers {api3 : Option API3Response} {pyth : Option PythPrice} (hs : s.status ≠ .api3Working)
    (hs' : s'.status = .api3Working) (h : fetchPrice s now rate api3 pyth = .ok (price, s')) :
    API3Usable now (getAPI3Response api3) ∧ PythUsable now (getPythResponse pyth) ∧
      SimilarPrice (getAPI3Response api3) (getPythResponse pyth) := by
  simp only [fetchPrice] at h
  generalize getAPI3Response api3 = a at *
  generalize getPythResponse pyth = p at *
  cases hst : s.status with
  | api3Working => exact absurd hst hs
  | usingPythAPI3Untrusted =>
    simp only [hst, fetchUsingPythAPI3Untrusted, bind_ok] at h
    obtain ⟨both, hboth, h⟩ := h
    split_ifs at h with h1 h2
    · exact (bothOraclesLive_ok hboth).1 h1
    · simp [lastGood_status h, changeStatus] at hs'
    · obtain ⟨f, -, h⟩ := bind_ok.1 h
      split_ifs at h
      · simp [lastGood_status h, hst] at hs'
      · simp [storePythPrice_status h, hst] at hs'
  | bothOraclesUntrusted =>
    simp only [hst, fetchBothOraclesUntrusted, bind_ok] at h
    obtain ⟨both, hboth, h⟩ := h
    split_ifs at h with h1
    · exact (bothOraclesLive_ok hboth).1 h1
    · simp [lastGood_status h, hst] at hs'
  | usingPythAPI3Frozen =>
    simp only [hst] at h
    rcases api3_cases now a with hA | ⟨hA, hA'⟩ | ⟨hA, hA'⟩ <;>
      rcases pyth_cases now p with hP | ⟨hP, hP'⟩ | ⟨hP, hP'⟩ <;>
      simp only [fetchUsingPythAPI3Frozen, *, ok_bind, Bool.false_eq_true, ite_true, ite_false] at h
    all_goals first
      | (have e := lastGood_status h; simp [e, hst, changeStatus] at hs')
      | (have e := storePythPrice_status h; simp [e, hst, changeStatus] at hs')
      | (have e := storeAPI3Price_status h; simp [e, changeStatus] at hs')
      | skip
    -- both feeds usable: the price comparison decides
    obtain ⟨similar, hsim, h⟩ := bind_ok.1 h
    split_ifs at h with h1
    · exact ⟨⟨hA, hA'⟩, ⟨hP, hP'⟩, by rw [SimilarPrice, hsim, h1]⟩
    · simp [storePythPrice_status h, changeStatus] at hs'
  | usingAPI3PythUntrusted =>
    simp only [hst] at h
    rcases api3_cases now a with hA | ⟨hA, hA'⟩ | ⟨hA, hA'⟩ <;>
      simp only [fetchUsingAPI3PythUntrusted, *, ok_bind, Bool.false_eq_true, ite_true, ite_false] at h
    · simp [lastGood_status h, changeStatus] at hs'
    · simp [lastGood_status h, hst] at hs'
    · obtain ⟨both, hboth, h⟩ := bind_ok.1 h
      split_ifs at h with h1
      · exact (bothOraclesLive_ok hboth).1 h1
      · simp [storeAPI3Price_status h, hst] at hs'

end Status

/-- without a usable feed the call succeeds: no price is scaled and no age of a future answer is taken -/
theorem fetchPrice_unusable (s : Feed) (now rate : ℕ) (api3 : Option API3Response) (pyth : Option PythPrice)
    (hA : ¬ API3Usable now (getAPI3Response api3)) (hP : ¬ PythUsable now (getPythResponse pyth)) :
    ∃ s', fetchPrice s now rate api3 pyth = .ok (s.lastGoodPrice, s') := by
  simp only [fetchPrice]
  generalize getAPI3Response api3 = a at *
  generalize getPythResponse pyth = p at *
  have hboth : bothOraclesLiveAndUnbrokenAndSimilarPrice now a p = .ok false := by
    rcases pyth_cases now p with h1 | ⟨h1, h2⟩ | h
    · simp [bothOraclesLiveAndUnbrokenAndSimilarPrice, h1, pure, Except.pure]
    · simp [bothOraclesLiveAndUnbrokenAndSimilarPrice, h1, h2, ok_bind, pure, Except.pure]
    · exact absurd h hP
  rcases api3_cases now a with hA1 | ⟨hA1, hA2⟩ | h
  · rcases pyth_cases now p with hP1 | ⟨hP1, hP2⟩ | h
    · cases s.status <;> simp [fetchAPI3Working, fetchUsingPythAPI3Untrusted, fetchBothOraclesUntrusted,
        fetchUsingPythAPI3Frozen, fetchUsingAPI3PythUntrusted, hboth, hA1, hP1, ok_bind, lastGood, changeStatus]
    · cases s.status <;> simp [fetchAPI3Working, fetchUsingPythAPI3Untrusted, fetchBothOraclesUntrusted,
        fetchUsingPythAPI3Frozen, fetchUsingAPI3PythUntrusted, hboth, hA1, hP1, hP2, ok_bind, lastGood, changeStatus]
    · exact absurd h hP
  · rcases pyth_cases now p with hP1 | ⟨hP1, hP2⟩ | h
    · cases s.status <;> simp [fetchAPI3Working, fetchUsingPythAPI3Untrusted, fetchBothOraclesUntrusted,
        fetchUsingPythAPI3Frozen, fetchUsingAPI3PythUntrusted, hboth, hA1, hA2, hP1, ok_bind, lastGood, changeStatus]
    · cases s.status <;> simp [fetchAPI3Working, fetchUsingPythAPI3Untrusted, fetchBothOraclesUntrusted,
        fetchUsingPythAPI3Frozen, fetchUsingAPI3PythUntrusted, hboth, hA1, hA2, hP1, hP2, ok_bind, lastGood,
        changeStatus]
    · exact absurd h hP
  · exact absurd h hA

/-- what a fetch from `s` may do to the storage -/
structure Trusted (s : Feed) (c : Fetch) (s' : Feed) : Prop where
  price : s'.lastGoodPrice ≠ s.lastGoodPrice → FromUsableFeed c s'.lastGoodPrice
  status : s.status ≠ .api3Working → s'.status = .api3Working → BothUsableAndClose c
  kept : ¬ API3Usable c.now c.api3Response → ¬ PythUsable c.now c.pythResponse →
    s'.lastGoodPrice = s.lastGoodPrice ∧ fetchPrice s c.now c.rate c.api3 c.pyth = .ok (s.lastGoodPrice, s')

theorem exec_trusted (s : Feed) (c : Fetch) : Trusted s c (commit s (exec s c)) := by
  cases h : fetchPrice s c.now c.rate c.api3 c.pyth with
  | error e =>
    -- a reverted call changes nothing, and a call without a usable feed does not revert
    have hs : commit s (exec s c) = s := by simp [exec, h, bind, Except.bind, commit]
    rw [hs]
    refine ⟨fun hne => absurd rfl hne, fun h1 h2 => absurd h2 h1, fun hA hP => ?_⟩
    obtain ⟨s', hs'⟩ := fetchPrice_unusable s c.now c.rate c.api3 c.pyth hA hP
    rw [hs'] at h
    cases h
  | ok r =>
    obtain ⟨price, s'⟩ := r
    have hs : commit s (exec s c) = s' := by simp [exec, h, ok_bind, commit, pure, Except.pure]
    rw [hs]
    have hcases := fetchPrice_cases s s' c.now c.rate price c.api3 c.pyth h
    refine ⟨?_, ?_, ?_⟩
    · intro hne
      rcases hcases with ⟨hA, hp, hs⟩ | ⟨hP, hx, hs⟩ | ⟨-, -, -, hs⟩
      · exact .inl ⟨readsAPI3_usable hA, by rw [hs, hp]; rfl⟩
      · exact .inr ⟨readsPyth_usable hP, price, hx, hs⟩
      · exact absurd hs hne
    · intro h1 h2
      obtain ⟨hA, hP, hsim⟩ := fetchPrice_recovers h1 h2 h
      exact ⟨hA, hP, similarPrice_close hsim⟩
    · intro hA hP
      rcases hcases with ⟨h1, -, -⟩ | ⟨h1, -, -⟩ | ⟨-, -, hp, hs⟩
      · exact absurd (readsAPI3_usable h1) hA
      · exact absurd (readsPyth_usable h1) hP
      · exact ⟨hs, by rw [h, hp]⟩

/-- **Oracle trust discipline.** Along any history of fetches with arbitrary answers, from any storage, each fetch that
changes `lastGoodPrice` stores the current price of a feed that is neither broken nor frozen in that fetch; each fetch
that changes the status to `api3Working` sees two usable feeds within the maximal price difference; and a fetch without
a usable feed returns `lastGoodPrice` and leaves it unchanged. -/
theorem history_trusted (s : Feed) (history : List Fetch) (k : ℕ) (c : Fetch) (hk : history[k]? = some c) :
    Trusted (run exec s (history.take k)) c (run exec s (history.take (k + 1))) := by
  have htake : history.take (k + 1) = history.take k ++ [c] := by rw [List.take_add_one, hk, Option.toList_some]
  rw [htake, run_snoc]
  exact exec_trusted _ c

/-- Pyth answers 2001 USD, and API3 2000 USD again -/
def pythAt2001 : PythPrice := ⟨2001 * 10 ^ 8, -8, 20000, by norm_num, by norm_num, by norm_num, by norm_num, by norm_num⟩
def api3Again : API3Response := ⟨2000 * 10 ^ 18, 20050, by norm_num, by norm_num, by norm_num⟩

/-- only API3 answers, then neither, then both with close prices -/
def recovery : List Fetch :=
  [⟨1001, 10 ^ 18, some api3At2000, none⟩, ⟨1100, 10 ^ 18, none, none⟩, ⟨20100, 10 ^ 18, some api3Again, some pythAt2001⟩]

/-- both oracles become untrusted with the price of the first fetch kept, and the third one finds its way back to API3 -/
theorem history_trusted_recovery :
    let after (k : ℕ) := run exec ⟨0, .api3Working⟩ (recovery.take k)
    after 1 = ⟨2000 * 10 ^ 18, .usingAPI3PythUntrusted⟩ ∧ after 2 = ⟨2000 * 10 ^ 18, .bothOraclesUntrusted⟩ ∧
      (after 3).status = .api3Working ∧
      Trusted (after 2) ⟨20100, 10 ^ 18, some api3Again, some pythAt2001⟩ (after 3) :=
  ⟨by decide +kernel, by decide +kernel, by decide +kernel, history_trusted ⟨0, .api3Working⟩ recovery 2 _ rfl⟩

end SimContracts.PriceFeed
