/-
When `fetchPrice` reverts. The oracle calls are wrapped in `try`, a broken answer is caught before it is used and the
prices are small enough to be scaled and converted; what is left is the exponent of a Pyth price, which is not checked.
Outside of -18..0 the scaling reverts, and with it every call that reads or compares the price of a usable Pyth.

Results:
  fetchPrice_succeeds_iff   fetchPrice reverts iff it scales a Pyth price whose exponent is out of range
  fetchPrice_reverts        a positive exponent while API3 is down
-/
import SimContracts.PriceFeed

namespace SimContracts.PriceFeed

open Solidity

variable {s : Feed} {now rate : ℕ} {a : API3Response} {p : PythPrice}

/-- at most 18 decimals -/
def ExpoInRange (p : PythPrice) : Prop := -18 ≤ p.expo ∧ p.expo ≤ 0

/-- the statuses and responses for which the price of Pyth is stored or compared -/
def scalesPyth (now : ℕ) (a : API3Response) (p : PythPrice) : Status → Prop
  | .api3Working => PythUsable now p ∧ ¬ API3Usable now a
  | .usingPythAPI3Untrusted => PythUsable now p
  | .bothOraclesUntrusted => PythUsable now p ∧ API3Usable now a
  | .usingPythAPI3Frozen => PythUsable now p
  | .usingAPI3PythUntrusted => PythUsable now p ∧ API3Usable now a

instance (p : PythPrice) : Decidable (ExpoInRange p) := inferInstanceAs (Decidable (_ ∧ _))

/-! ## Scaling -/

theorem scalePyth_of_expo (h : ExpoInRange p) : ∃ x, scalePythPriceByDigits p = .ok x ∧ x < 2 ^ 128 := by
  obtain ⟨hlo, hhi⟩ := h
  have hprice : (p.price % 2 ^ 64).toNat < 2 ^ 64 := by omega
  have hdigits : ((-p.expo) % 2 ^ 32).toNat ≤ TARGET_DIGITS := by
    rw [Int.emod_eq_of_lt (by omega) (by omega)]
    unfold TARGET_DIGITS
    omega
  have hpow : 10 ^ (TARGET_DIGITS - ((-p.expo) % 2 ^ 32).toNat) ≤ 10 ^ 18 :=
    Nat.pow_le_pow_right (by norm_num) (Nat.sub_le _ _)
  have hlt : (p.price % 2 ^ 64).toNat * 10 ^ (TARGET_DIGITS - ((-p.expo) % 2 ^ 32).toNat) < 2 ^ 128 :=
    calc (p.price % 2 ^ 64).toNat * 10 ^ (TARGET_DIGITS - ((-p.expo) % 2 ^ 32).toNat)
        ≤ (p.price % 2 ^ 64).toNat * 10 ^ 18 := Nat.mul_le_mul_left _ hpow
      _ < 2 ^ 64 * 10 ^ 18 := Nat.mul_lt_mul_of_pos_right hprice (by norm_num)
      _ < 2 ^ 128 := by norm_num
  refine ⟨_, ?_, hlt⟩
  have hneg : negInt32 p.expo = .ok (-p.expo) := if_neg (by omega)
  simp only [scalePythPriceByDigits, hneg, ok_bind, usub_bind]
  exact ⟨hdigits, umul_ok.2 ⟨hlt.trans (by norm_num), rfl⟩⟩

theorem expo_of_scalePyth (h : Succeeds (scalePythPriceByDigits p)) : ExpoInRange p := by
  obtain ⟨x, h⟩ := h
  obtain ⟨e, he, h⟩ := bind_ok.1 h
  simp only [usub_bind] at h
  unfold negInt32 at he
  split_ifs at he with hmin
  cases he
  have hge := p.expo_ge
  have hlt := p.expo_lt
  have hdigits := h.1
  unfold TARGET_DIGITS at hdigits
  -- the cast takes a positive exponent to a number of digits near 2^32
  rcases le_or_gt p.expo 0 with hneg | hpos
  · rw [Int.emod_eq_of_lt (by omega) (by omega)] at hdigits
    exact ⟨by omega, hneg⟩
  · have hwrap : -p.expo % 2 ^ 32 = -p.expo + 2 ^ 32 := by
      rw [← Int.add_emod_right, Int.emod_eq_of_lt (by omega) (by omega)]
    rw [hwrap] at hdigits
    omega

theorem scaleAPI3_lt (hA : API3Usable now a) (hvalue : a.value < 2 ^ 128) : scaleAPI3PriceByDigits a < 2 ^ 128 := by
  have hv : 0 < a.value := by
    have := hA.1
    simp only [api3IsBroken, Bool.or_eq_false_iff, decide_eq_false_iff_not] at this
    omega
  have hmod : a.value % 2 ^ 224 = a.value := Int.emod_eq_of_lt hv.le (by omega)
  rw [scaleAPI3PriceByDigits, hmod]
  omega

/-! ## Storing and comparing -/

theorem storePrice_succeeds {price : ℕ} (hprice : price < 2 ^ 128) (hrate : rate < 2 ^ 96) (s : Feed) :
    Succeeds (storePrice s rate price) := by
  have hlt : price * rate < 2 ^ 256 :=
    calc price * rate < 2 ^ 128 * 2 ^ 96 := Nat.mul_lt_mul'' hprice hrate
      _ < 2 ^ 256 := by norm_num
  refine ⟨{ s with lastGoodPrice := price * rate / 10 ^ 18 }, ?_⟩
  simp only [storePrice, umul_bind, udiv_bind]
  exact ⟨hlt, by norm_num, rfl⟩

theorem storeAPI3Price_succeeds (hA : API3Usable now a) (hvalue : a.value < 2 ^ 128) (hrate : rate < 2 ^ 96) (s : Feed) :
    Succeeds (storeAPI3Price s rate a) :=
  (storePrice_succeeds (scaleAPI3_lt hA hvalue) hrate s).bind fun _ _ => succeeds_ok _

theorem storePythPrice_succeeds_iff (hrate : rate < 2 ^ 96) (s : Feed) :
    Succeeds (storePythPrice s rate p) ↔ ExpoInRange p := by
  refine ⟨fun h => expo_of_scalePyth h.left, fun hexpo => ?_⟩
  obtain ⟨x, hx, hlt⟩ := scalePyth_of_expo hexpo
  rw [storePythPrice, hx, ok_bind]
  exact (storePrice_succeeds hlt hrate s).bind fun _ _ => succeeds_ok _

theorem bothOraclesSimilarPrice_succeeds_iff (hA : API3Usable now a) (hP : PythUsable now p) (hvalue : a.value < 2 ^ 128) :
    Succeeds (bothOraclesSimilarPrice a p) ↔ ExpoInRange p := by
  refine ⟨fun h => expo_of_scalePyth h.left, fun hexpo => ?_⟩
  obtain ⟨x, hx, hlt⟩ := scalePyth_of_expo hexpo
  have hxpos := pythUsable_pos hP hx
  have hapos := api3Usable_pos hA
  have halt := scaleAPI3_lt hA hvalue
  generalize hy : scaleAPI3PriceByDigits a = y at *
  have hdiff : (max x y - min x y) * DECIMAL_PRECISION < 2 ^ 256 :=
    calc (max x y - min x y) * DECIMAL_PRECISION < 2 ^ 128 * 2 ^ 128 := Nat.mul_lt_mul'' (by omega) (by decide)
      _ = 2 ^ 256 := by norm_num
  rw [bothOraclesSimilarPrice, hx, ok_bind, hy]
  refine Succeeds.bind ⟨_, usub_ok.2 ⟨min_le_max, rfl⟩⟩ fun d hd => ?_
  obtain ⟨-, rfl⟩ := usub_ok.1 hd
  refine Succeeds.bind ⟨_, umul_ok.2 ⟨hdiff, rfl⟩⟩ fun scaled _ => ?_
  exact Succeeds.bind ⟨_, udiv_ok.2 ⟨by omega, rfl⟩⟩ fun _ _ => succeeds_ok _

/-- with two usable feeds the comparison decides what is stored, and both can be -/
theorem compareThenStore_succeeds_iff {s₁ : Feed} {second : Res (ℕ × Feed)} (hA : API3Usable now a)
    (hP : PythUsable now p) (hvalue : a.value < 2 ^ 128) (hrate : rate < 2 ^ 96)
    (hsecond : ExpoInRange p → Succeeds second) :
    Succeeds (do if ← bothOraclesSimilarPrice a p then storeAPI3Price s₁ rate a else second) ↔ ExpoInRange p := by
  have hcompare := bothOraclesSimilarPrice_succeeds_iff hA hP hvalue
  refine ⟨fun h => hcompare.1 h.left, fun hexpo => (hcompare.2 hexpo).bind fun similar _ => ?_⟩
  cases similar with
  | true => exact storeAPI3Price_succeeds hA hvalue hrate s₁
  | false => exact hsecond hexpo

/-- the check of both feeds compares them only when both are usable -/
theorem bothOraclesLive_eq (now : ℕ) (a : API3Response) (p : PythPrice) :
    bothOraclesLiveAndUnbrokenAndSimilarPrice now a p =
      if API3Usable now a ∧ PythUsable now p then bothOraclesSimilarPrice a p else .ok false := by
  rcases pyth_cases now p with hP | ⟨hP, hP'⟩ | ⟨hP, hP'⟩ <;>
    rcases api3_cases now a with hA | ⟨hA, hA'⟩ | ⟨hA, hA'⟩ <;>
    simp [bothOraclesLiveAndUnbrokenAndSimilarPrice, ok_bind, API3Usable, PythUsable, pure, Except.pure, *]

/-! ## Status by status -/

theorem lastGood_succeeds (s : Feed) : Succeeds (lastGood s) := succeeds_ok _

section Statuses

variable (hvalue : a.value < 2 ^ 128) (hrate : rate < 2 ^ 96)
include hvalue hrate

theorem fetchAPI3Working_succeeds_iff :
    Succeeds (fetchAPI3Working s now rate a p) ↔ (scalesPyth now a p .api3Working → ExpoInRange p) := by
  have hapi3 : API3Usable now a → ∀ s, Succeeds (storeAPI3Price s rate a) :=
    fun hA => storeAPI3Price_succeeds hA hvalue hrate
  simp only [scalesPyth]
  rcases api3_cases now a with hA | ⟨hA, hA'⟩ | ⟨hA, hA'⟩ <;>
    rcases pyth_cases now p with hP | ⟨hP, hP'⟩ | ⟨hP, hP'⟩ <;>
    simp_all [fetchAPI3Working, ok_bind, API3Usable, PythUsable, storePythPrice_succeeds_iff hrate, lastGood_succeeds]

theorem fetchUsingPythAPI3Untrusted_succeeds_iff :
    Succeeds (fetchUsingPythAPI3Untrusted s now rate a p) ↔ (scalesPyth now a p .usingPythAPI3Untrusted → ExpoInRange p) := by
  have hcompare := @compareThenStore_succeeds_iff now rate a p
  simp only [scalesPyth, fetchUsingPythAPI3Untrusted, bothOraclesLive_eq]
  rcases api3_cases now a with hA | ⟨hA, hA'⟩ | ⟨hA, hA'⟩ <;>
    rcases pyth_cases now p with hP | ⟨hP, hP'⟩ | ⟨hP, hP'⟩ <;>
    simp_all [ok_bind, API3Usable, PythUsable, storePythPrice_succeeds_iff hrate, lastGood_succeeds]

theorem fetchBothOraclesUntrusted_succeeds_iff :
    Succeeds (fetchBothOraclesUntrusted s now rate a p) ↔ (scalesPyth now a p .bothOraclesUntrusted → ExpoInRange p) := by
  have hcompare := @compareThenStore_succeeds_iff now rate a p
  simp only [scalesPyth, fetchBothOraclesUntrusted, bothOraclesLive_eq]
  rcases api3_cases now a with hA | ⟨hA, hA'⟩ | ⟨hA, hA'⟩ <;>
    rcases pyth_cases now p with hP | ⟨hP, hP'⟩ | ⟨hP, hP'⟩ <;>
    simp_all [ok_bind, API3Usable, PythUsable, lastGood_succeeds]

theorem fetchUsingPythAPI3Frozen_succeeds_iff :
    Succeeds (fetchUsingPythAPI3Frozen s now rate a p) ↔ (scalesPyth now a p .usingPythAPI3Frozen → ExpoInRange p) := by
  have hapi3 : API3Usable now a → ∀ s, Succeeds (storeAPI3Price s rate a) :=
    fun hA => storeAPI3Price_succeeds hA hvalue hrate
  have hcompare := @compareThenStore_succeeds_iff now rate a p
  simp only [scalesPyth]
  rcases api3_cases now a with hA | ⟨hA, hA'⟩ | ⟨hA, hA'⟩ <;>
    rcases pyth_cases now p with hP | ⟨hP, hP'⟩ | ⟨hP, hP'⟩ <;>
    simp_all [fetchUsingPythAPI3Frozen, ok_bind, API3Usable, PythUsable, storePythPrice_succeeds_iff hrate,
      lastGood_succeeds]

theorem fetchUsingAPI3PythUntrusted_succeeds_iff :
    Succeeds (fetchUsingAPI3PythUntrusted s now rate a p) ↔
      (scalesPyth now a p .usingAPI3PythUntrusted → ExpoInRange p) := by
  have hapi3 : API3Usable now a → ∀ s, Succeeds (storeAPI3Price s rate a) :=
    fun hA => storeAPI3Price_succeeds hA hvalue hrate
  have hcompare := @compareThenStore_succeeds_iff now rate a p
  simp only [scalesPyth, fetchUsingAPI3PythUntrusted, bothOraclesLive_eq]
  rcases api3_cases now a with hA | ⟨hA, hA'⟩ | ⟨hA, hA'⟩ <;>
    rcases pyth_cases now p with hP | ⟨hP, hP'⟩ | ⟨hP, hP'⟩ <;>
    simp_all [ok_bind, API3Usable, PythUsable, lastGood_succeeds]

end Statuses

/-- **When `fetchPrice` goes through**: it does not revert iff the Pyth price has an exponent from -18 to 0 or is neither
stored nor compared. -/
theorem fetchPrice_succeeds_iff (s : Feed) (now rate : ℕ) (api3 : Option API3Response) (pyth : Option PythPrice)
    (hvalue : ∀ r, api3 = some r → r.value < 2 ^ 128) (hrate : rate < 2 ^ 96) :
    Succeeds (fetchPrice s now rate api3 pyth) ↔
      (scalesPyth now (getAPI3Response api3) (getPythResponse pyth) s.status → ExpoInRange (getPythResponse pyth)) := by
  have hresponse : (getAPI3Response api3).value < 2 ^ 128 := by
    cases api3 with
    | none => exact Int.pow_pos (by norm_num)
    | some r => exact hvalue r rfl
  simp only [fetchPrice]
  cases s.status with
  | api3Working => exact fetchAPI3Working_succeeds_iff hresponse hrate
  | usingPythAPI3Untrusted => exact fetchUsingPythAPI3Untrusted_succeeds_iff hresponse hrate
  | usingPythAPI3Frozen => exact fetchUsingPythAPI3Frozen_succeeds_iff hresponse hrate
  | bothOraclesUntrusted => exact fetchBothOraclesUntrusted_succeeds_iff hresponse hrate
  | usingAPI3PythUntrusted => exact fetchUsingAPI3PythUntrusted_succeeds_iff hresponse hrate

/-- API3 at 2000 USD, in the first status -/
theorem fetchPrice_succeeds_api3 :
    Succeeds (fetchPrice ⟨0, .api3Working⟩ 1001 (10 ^ 18) (some api3At2000) none) ↔
      (scalesPyth 1001 (getAPI3Response (some api3At2000)) (getPythResponse none) .api3Working →
        ExpoInRange (getPythResponse none)) :=
  fetchPrice_succeeds_iff ⟨0, .api3Working⟩ 1001 (10 ^ 18) (some api3At2000) none
    (fun r hr => by cases hr; decide) (by decide)

/-- 2000 USD as 20 * 10^2 -/
def pythWithPositiveExpo : PythPrice where
  price := 20
  expo := 2
  publishTime := 1000
  price_ge := by norm_num
  price_lt := by norm_num
  expo_ge := by norm_num
  expo_lt := by norm_num
  publishTime_lt := by norm_num

/-- API3 is down and the exponent is 2: the price feed reverts -/
theorem fetchPrice_reverts :
    Res.failure (fetchPrice ⟨2000 * 10 ^ 18, .api3Working⟩ 1001 (10 ^ 18) none (some pythWithPositiveExpo)) =
      some (.panic 0x11) := by
  decide +kernel

end SimContracts.PriceFeed
