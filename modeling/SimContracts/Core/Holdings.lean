/-
Things with owners, and for every owner an enumeration of what they hold: a number of places, the thing at each place, and
for every thing its place. A thing that changes hands is put at the end of a list; one that leaves a list is replaced by
the last one. The way contracts keep the tokens of an account. `nobody` owns what has no owner, and holds nothing.

Results:
  Holdings.give   an unowned thing goes to the end of a list
  Holdings.take   a thing leaves its list, the last one takes its place
-/
import Mathlib.Tactic

namespace SimContracts

variable {ι κ : Type}

/-- every list has exactly what its owner holds, each thing at its place, and nothing behind -/
structure Holdings (nobody : κ) (none : ι) (owner : ι → κ) (count : κ → ℕ) (list : κ → ℕ → ι) (index : ι → ℕ) : Prop where
  place : ∀ a, owner a ≠ nobody → index a < count (owner a) ∧ list (owner a) (index a) = a
  listed : ∀ o i, i < count o → owner (list o i) = o ∧ index (list o i) = i
  empty : ∀ o i, count o ≤ i → list o i = none
  nobody_empty : count nobody = 0

namespace Holdings

variable {nobody : κ} {none : ι} {owner : ι → κ} {count : κ → ℕ} {list : κ → ℕ → ι} {index : ι → ℕ} {a : ι} {o : κ}

theorem nil (nobody : κ) (none : ι) (index : ι → ℕ) :
    Holdings nobody none (fun _ => nobody) (fun _ => 0) (fun _ _ => none) index :=
  ⟨fun _ h => absurd rfl h, fun _ _ h => absurd h (Nat.not_lt_zero _), fun _ _ _ => rfl, rfl⟩

/-- what is listed has an owner -/
theorem owned (h : Holdings nobody none owner count list index) {i : ℕ} (hi : i < count o) : o ≠ nobody := by
  rintro rfl
  rw [h.nobody_empty] at hi
  exact Nat.not_lt_zero _ hi

/-- a list has what its owner holds -/
theorem mem_iff (h : Holdings nobody none owner count list index) :
    (∃ i < count o, list o i = a) ↔ owner a = o ∧ owner a ≠ nobody := by
  constructor
  · rintro ⟨i, hi, rfl⟩
    have ho := (h.listed o i hi).1
    exact ⟨ho, ho.symm ▸ h.owned hi⟩
  · rintro ⟨rfl, ho⟩
    exact ⟨index a, (h.place a ho).1, (h.place a ho).2⟩

/-- nothing is listed twice -/
theorem inj (h : Holdings nobody none owner count list index) {i j : ℕ} (hi : i < count o) (hj : j < count o)
    (he : list o i = list o j) : i = j := by
  rw [← (h.listed o i hi).2, ← (h.listed o j hj).2, he]

section Moves

variable [DecidableEq ι] [DecidableEq κ]

/-- **Giving.** A thing that nobody owns goes to the end of a list. -/
theorem give (h : Holdings nobody none owner count list index) (ha : owner a = nobody) (ho : o ≠ nobody) :
    Holdings nobody none (Function.update owner a o) (Function.update count o (count o + 1))
      (Function.update list o (Function.update (list o) (count o) a)) (Function.update index a (count o)) := by
  -- nothing listed is the new thing
  have hnew : ∀ p i, i < count p → list p i ≠ a := by
    intro p i hi he
    have hp := (h.listed p i hi).1
    rw [he, ha] at hp
    exact h.owned hi hp.symm
  refine ⟨fun b hb => ?_, fun p i hi => ?_, fun p i hi => ?_, ?_⟩
  · by_cases hba : b = a
    · subst hba
      simp
    · rw [Function.update_of_ne hba] at hb ⊢
      obtain ⟨hlt, hat⟩ := h.place b hb
      rw [Function.update_of_ne hba]
      by_cases hp : owner b = o
      · rw [hp] at hlt hat ⊢
        rw [Function.update_self, Function.update_self, Function.update_of_ne hlt.ne]
        exact ⟨Nat.lt_succ_of_lt hlt, hat⟩
      · rw [Function.update_of_ne hp, Function.update_of_ne hp]
        exact ⟨hlt, hat⟩
  · by_cases hp : p = o
    · subst hp
      rw [Function.update_self] at hi ⊢
      by_cases hlast : i = count p
      · subst hlast
        simp
      · have hlt : i < count p := by omega
        rw [Function.update_of_ne hlast, Function.update_of_ne (hnew p i hlt), Function.update_of_ne (hnew p i hlt)]
        exact h.listed p i hlt
    · rw [Function.update_of_ne hp] at hi ⊢
      rw [Function.update_of_ne (hnew p i hi), Function.update_of_ne (hnew p i hi)]
      exact h.listed p i hi
  · by_cases hp : p = o
    · subst hp
      rw [Function.update_self] at hi ⊢
      rw [Function.update_of_ne (by omega)]
      exact h.empty p i (by omega)
    · rw [Function.update_of_ne hp] at hi ⊢
      exact h.empty p i hi
  · rw [Function.update_of_ne ho.symm]
    exact h.nobody_empty

/-- **Taking.** A thing leaves the list of its owner; the last one of the list, if it is another one, takes its place. -/
theorem take (h : Holdings nobody none owner count list index) (ha : owner a = o) (ho : o ≠ nobody)
    {list' : ℕ → ι} {index' : ι → ℕ}
    (hlist : ∀ i, list' i = if count o - 1 ≤ i then none else if i = index a then list o (count o - 1) else list o i)
    (hindex : ∀ b, b ≠ a → index' b = if b = list o (count o - 1) then index a else index b) :
    Holdings nobody none (Function.update owner a nobody) (Function.update count o (count o - 1))
      (Function.update list o list') index' := by
  obtain ⟨hlt, hat⟩ := h.place a (ha.symm ▸ ho)
  rw [ha] at hlt hat
  obtain ⟨hlastOwner, hlastIndex⟩ := h.listed o (count o - 1) (by omega)
  -- what is listed elsewhere is neither the thing nor the last one of its list
  have hother : ∀ p i, p ≠ o → i < count p → list p i ≠ a ∧ list p i ≠ list o (count o - 1) := by
    intro p i hp hi
    have hown := (h.listed p i hi).1
    refine ⟨fun he => hp ?_, fun he => hp ?_⟩
    · rw [← hown, he, ha]
    · rw [← hown, he, hlastOwner]
  refine ⟨fun b hb => ?_, fun p i hi => ?_, fun p i hi => ?_, ?_⟩
  · have hba : b ≠ a := by
      rintro rfl
      exact hb (Function.update_self ..)
    rw [Function.update_of_ne hba] at hb ⊢
    obtain ⟨hblt, hbat⟩ := h.place b hb
    rw [hindex b hba]
    by_cases hp : owner b = o
    · rw [hp] at hblt hbat ⊢
      rw [Function.update_self, Function.update_self, hlist]
      by_cases hbl : b = list o (count o - 1)
      · -- the last one moves to the place of `a`
        have hne : index a ≠ count o - 1 := fun e => hba (by rw [hbl, ← e, hat])
        rw [if_pos hbl, if_neg (by omega), if_pos rfl]
        exact ⟨by omega, hbl.symm⟩
      · have hne : index b ≠ count o - 1 := fun e => hbl (by rw [← e, hbat])
        have hne' : index b ≠ index a := fun e => hba (by rw [← hbat, e, hat])
        rw [if_neg hbl, if_neg (by omega), if_neg hne']
        exact ⟨by omega, hbat⟩
    · have hbl : b ≠ list o (count o - 1) := fun e => hp (by rw [e, hlastOwner])
      rw [Function.update_of_ne hp, Function.update_of_ne hp, if_neg hbl]
      exact ⟨hblt, hbat⟩
  · by_cases hp : p = o
    · subst hp
      rw [Function.update_self] at hi ⊢
      rw [hlist, if_neg (by omega)]
      split_ifs with hi'
      · have hla : list p (count p - 1) ≠ a := by
          intro e
          rw [e] at hlastIndex
          omega
        rw [Function.update_of_ne hla, hindex _ hla, if_pos rfl]
        exact ⟨hlastOwner, hi'.symm⟩
      · obtain ⟨hown, hidx⟩ := h.listed p i (by omega)
        have hna : list p i ≠ a := fun e => hi' (by rw [← hidx, e])
        have hnl : list p i ≠ list p (count p - 1) := by
          intro e
          have := h.inj (by omega) (by omega) e
          omega
        rw [Function.update_of_ne hna, hindex _ hna, if_neg hnl]
        exact ⟨hown, hidx⟩
    · rw [Function.update_of_ne hp] at hi ⊢
      obtain ⟨hna, hnl⟩ := hother p i hp hi
      rw [Function.update_of_ne hna, hindex _ hna, if_neg hnl]
      exact h.listed p i hi
  · by_cases hp : p = o
    · subst hp
      rw [Function.update_self] at hi ⊢
      rw [hlist, if_pos hi]
    · rw [Function.update_of_ne hp] at hi ⊢
      exact h.empty p i hi
  · rw [Function.update_of_ne ho.symm]
    exact h.nobody_empty

end Moves

end Holdings

end SimContracts
