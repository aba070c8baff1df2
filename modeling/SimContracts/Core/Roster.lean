/-
An array of members that each know their own place in it: `push` appends a member, `swapRemove` moves the last member
into a freed place and shortens the array by one. The way contracts keep enumerable sets.
-/
import Mathlib.Data.List.Nodup
import Mathlib.Tactic

namespace SimContracts

variable {α : Type} {xs ys : List α} {index index' : α → ℕ} {a b d : α}

/-- the array without the member at place `i`, the last one in its place (`d` for an empty array) -/
def swapRemove (d : α) (xs : List α) (i : ℕ) : List α := (xs.set i (xs.getD (xs.length - 1) d)).dropLast

/-- no member twice, and `index` finds every member -/
structure Roster (xs : List α) (index : α → ℕ) : Prop where
  nodup : xs.Nodup
  index : ∀ a ∈ xs, xs[index a]? = some a

namespace Roster

theorem nil (index : α → ℕ) : Roster [] index := ⟨.nil, fun _ ha => absurd ha List.not_mem_nil⟩

/-- a new member at the end -/
theorem push (h : Roster xs index) (ha : a ∉ xs) (hself : index' a = xs.length) (hi : ∀ b ∈ xs, index' b = index b) :
    Roster (xs ++ [a]) index' := by
  refine ⟨List.nodup_append.2 ⟨h.nodup, by simp, ?_⟩, fun b hb => ?_⟩
  · intro b hb c hc
    rw [List.mem_singleton.1 hc]
    exact fun e => ha (e ▸ hb)
  · rcases List.mem_append.1 hb with hb | hb
    · rw [hi b hb, List.getElem?_append_left (List.getElem?_eq_some_iff.1 (h.index b hb)).1]
      exact h.index b hb
    · rw [List.mem_singleton.1 hb, hself]
      simp

/-- the place of a member is within the array -/
theorem index_lt (h : Roster xs index) (ha : a ∈ xs) : index a < xs.length :=
  (List.getElem?_eq_some_iff.1 (h.index a ha)).1

theorem index_inj (h : Roster xs index) (ha : a ∈ xs) (hb : b ∈ xs) (e : index a = index b) : a = b := by
  have h1 := h.index a ha
  rw [e, h.index b hb] at h1
  exact (Option.some.inj h1).symm

theorem getD_last (ys : List α) (z : α) : (ys ++ [z]).getD ((ys ++ [z]).length - 1) d = z := by
  simp [List.getD]

/-- **Removing a member.** The others stay, and the last one has the freed place. -/
theorem swapRemove [DecidableEq α] (h : Roster xs index) (hb : b ∈ xs)
    (hi : ∀ a, a ≠ b → index' a = if a = xs.getD (xs.length - 1) d then index b else index a) :
    Roster (swapRemove d xs (index b)) index' ∧ ∀ a, a ∈ SimContracts.swapRemove d xs (index b) ↔ a ∈ xs ∧ a ≠ b := by
  rcases xs.eq_nil_or_concat with rfl | ⟨ys, z, rfl⟩
  · exact absurd hb List.not_mem_nil
  rw [List.concat_eq_append] at *
  simp only [SimContracts.swapRemove, getD_last] at hi ⊢
  have hnodup := List.nodup_append.1 h.nodup
  have hz : z ∉ ys := fun hz => hnodup.2.2 z hz z (by simp) rfl
  have hlast : index z = ys.length := by
    have hlt := h.index_lt (a := z) (by simp)
    rw [List.length_append, List.length_singleton] at hlt
    by_contra hne
    have hget := h.index z (by simp)
    rw [List.getElem?_append_left (by omega)] at hget
    exact hz (List.mem_of_getElem? hget)
  have hplace : ∀ a ∈ ys, index a < ys.length ∧ ys[index a]? = some a := by
    intro a ha
    have hlt := h.index_lt (List.mem_append_left [z] ha)
    have hne : index a ≠ index z := fun e => hz (h.index_inj (List.mem_append_left _ ha) (by simp) e ▸ ha)
    rw [List.length_append, List.length_singleton] at hlt
    have hlt' : index a < ys.length := by omega
    refine ⟨hlt', ?_⟩
    have hget := h.index a (List.mem_append_left _ ha)
    rwa [List.getElem?_append_left hlt'] at hget
  by_cases hbz : b = z
  · -- the last member itself
    subst hbz
    have hset : ((ys ++ [b]).set (index b) b).dropLast = ys := by
      rw [hlast, List.set_append_right _ _ le_rfl, Nat.sub_self]
      simp
    rw [hset]
    refine ⟨⟨hnodup.1, fun a ha => ?_⟩, fun a => ?_⟩
    · have hab : a ≠ b := fun e => hz (e ▸ ha)
      rw [hi a hab, if_neg hab]
      exact (hplace a ha).2
    · constructor
      · intro ha
        exact ⟨List.mem_append_left _ ha, fun e => hz (e ▸ ha)⟩
      · rintro ⟨ha, hab⟩
        rcases List.mem_append.1 ha with ha | ha
        · exact ha
        · exact absurd (List.mem_singleton.1 ha) hab
  · have hby : b ∈ ys := (List.mem_append.1 hb).resolve_right fun e => hbz (List.mem_singleton.1 e)
    obtain ⟨hlt, hget⟩ := hplace b hby
    have hset : ((ys ++ [z]).set (index b) z).dropLast = ys.set (index b) z := by
      rw [List.set_append_left _ _ hlt]
      simp
    rw [hset]
    have hmem : ∀ a, a ∈ ys.set (index b) z ↔ a ∈ ys ++ [z] ∧ a ≠ b := by
      intro a
      constructor
      · intro ha
        obtain ⟨j, hj⟩ := List.getElem?_of_mem ha
        rw [List.getElem?_set] at hj
        split_ifs at hj with h1
        · cases hj
          exact ⟨by simp, Ne.symm hbz⟩
        · have hay := List.mem_of_getElem? hj
          refine ⟨List.mem_append_left _ hay, ?_⟩
          rintro rfl
          have := (List.getElem?_inj hlt hnodup.1).1 (hget.trans hj.symm)
          exact h1 this
      · rintro ⟨ha, hab⟩
        rcases List.mem_append.1 ha with ha | ha
        · have hne : index b ≠ index a :=
            fun e => hab (h.index_inj (List.mem_append_left _ ha) hb e.symm)
          refine List.mem_of_getElem? (i := index a) ?_
          rw [List.getElem?_set, if_neg hne]
          exact (hplace a ha).2
        · rw [List.mem_singleton.1 ha]
          exact List.mem_set hlt z
    refine ⟨⟨hnodup.1.set hz, fun a ha => ?_⟩, hmem⟩
    obtain ⟨ha', hab⟩ := (hmem a).1 ha
    rw [hi a hab, List.getElem?_set]
    by_cases haz : a = z
    · rw [if_pos haz, if_pos rfl, if_pos hlt, haz]
    · have hay : a ∈ ys := (List.mem_append.1 ha').resolve_right fun e => haz (List.mem_singleton.1 e)
      have hne : index b ≠ index a := fun e => hab (h.index_inj ha' hb e.symm)
      rw [if_neg haz, if_neg hne]
      exact (hplace a hay).2

end Roster

end SimContracts
