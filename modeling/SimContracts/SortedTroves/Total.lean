/-
Insertions and removals go through. The ratios are any function here, the hints any two addresses and the nodes in any order:
a search starts at a node whose ratio is on the right side, or at the head, keeps to that side (`NICR` is at most the ratio of
the node the walk down is at, at least that of the node the walk up is at), and so ends at the latest at the end of the list,
in a valid position. It takes a round for each node.

Results:
  sortedTroves_total   `_insert`, `_remove` and `reInsert` on any list and with any hints
-/
import SimContracts.SortedTroves.Chain

namespace SimContracts.SortedTroves

open Solidity

variable {d : Data} {ids us vs : List Address} {rate : Address → ℕ} {NICR rounds : ℕ} {id prevId nextId startId : Address}

/-! ## Searches end -/

/-- with a ratio for every address, checking a position does not revert -/
theorem validInsertPosition_succeeds (d : Data) (rate : Address → ℕ) (NICR : ℕ) (prevId nextId : Address) :
    Succeeds (validInsertPosition d (fun a => .ok (rate a)) NICR prevId nextId) := by
  unfold validInsertPosition
  simp only [ok_bind]
  split_ifs <;> exact succeeds_ok _

theorem checkedHint_succeeds (d : Data) (rate : Address → ℕ) (id : Address) (wrongSide : ℕ → Bool) :
    Succeeds (checkedHint d (fun a => .ok (rate a)) id wrongSide) := by
  unfold checkedHint
  simp only [ok_bind]
  split_ifs <;> exact succeeds_ok _

/-- an end of the list is a position when the ratio is on its side -/
theorem valid_tail (h : IsChain d (us ++ [id])) (hle : NICR ≤ rate id) :
    validInsertPosition d (fun a => .ok (rate a)) NICR id 0 = .ok true := by
  have h0 : id ≠ 0 := h.mem_ne_zero (by simp)
  have htail : d.tail = id := by simp [h.tail]
  rw [validInsertPosition, if_neg (by simp [h0]), if_neg h0, if_pos rfl, if_pos htail, ok_bind, decide_eq_true hle]
  rfl

theorem valid_head (h : IsChain d (id :: vs)) (hle : rate id ≤ NICR) :
    validInsertPosition d (fun a => .ok (rate a)) NICR 0 id = .ok true := by
  have h0 : id ≠ 0 := h.mem_ne_zero (by simp)
  have hhead : d.head = id := h.head
  rw [validInsertPosition, if_neg (by simp [h0]), if_pos rfl, if_pos hhead, ok_bind, decide_eq_true hle]
  rfl

/-- two neighbours are a position when the ratio is between theirs -/
theorem valid_between (h : IsChain d (us ++ prevId :: nextId :: vs)) :
    validInsertPosition d (fun a => .ok (rate a)) NICR prevId nextId =
      .ok (decide (NICR ≤ rate prevId ∧ rate nextId ≤ NICR)) := by
  have hp : prevId ≠ 0 := h.mem_ne_zero (by simp)
  have hn : nextId ≠ 0 := h.mem_ne_zero (by simp)
  have hnext : (d.nodes prevId).nextId = nextId := h.getNext_eq
  rw [validInsertPosition, if_neg (by simp [hp]), if_neg hp, if_neg hn, if_pos hnext, ok_bind]
  by_cases hle : NICR ≤ rate prevId
  · rw [if_pos hle, ok_bind]
    simp [hle]
  · rw [if_neg hle]
    simp [hle]

/-- the walk down from a node with a ratio of at least `NICR`: one round for each node below -/
theorem descendLoop_succeeds (h : IsChain d (us ++ prevId :: vs)) (hle : NICR ≤ rate prevId) (hrounds : vs.length < rounds) :
    Succeeds (descendLoop d (fun a => .ok (rate a)) NICR rounds prevId (getNext d prevId)) := by
  induction vs generalizing us prevId rounds with
  | nil =>
    obtain ⟨rounds, rfl⟩ : ∃ r, rounds = r + 1 := ⟨rounds - 1, by omega⟩
    have h0 : prevId ≠ 0 := h.mem_ne_zero (by simp)
    have hnext : getNext d prevId = 0 := h.getNext_eq
    rw [descendLoop, if_neg h0, hnext, valid_tail h hle]
    exact succeeds_ok _
  | cons v vs ih =>
    obtain ⟨rounds, rfl⟩ : ∃ r, rounds = r + 1 := ⟨rounds - 1, by omega⟩
    have h0 : prevId ≠ 0 := h.mem_ne_zero (by simp)
    have hnext : getNext d prevId = v := h.getNext_eq
    rw [descendLoop, if_neg h0, hnext, valid_between h, ok_bind]
    by_cases hvalid : NICR ≤ rate prevId ∧ rate v ≤ NICR
    · rw [decide_eq_true hvalid]
      exact succeeds_ok _
    · rw [decide_eq_false hvalid]
      have hbelow : NICR ≤ rate v := by omega
      rw [List.append_cons] at h
      exact ih h hbelow (by simpa using hrounds)

/-- the walk up from a node with a ratio of at most `NICR`: one round for each node above -/
theorem ascendLoop_succeeds (rounds : ℕ) (h : IsChain d (us ++ nextId :: vs)) (hle : rate nextId ≤ NICR)
    (hrounds : us.length < rounds) :
    Succeeds (ascendLoop d (fun a => .ok (rate a)) NICR rounds (getPrev d nextId) nextId) := by
  induction us using List.reverseRecOn generalizing nextId vs rounds with
  | nil =>
    obtain ⟨rounds, rfl⟩ : ∃ r, rounds = r + 1 := ⟨rounds - 1, by omega⟩
    have h0 : nextId ≠ 0 := h.mem_ne_zero (by simp)
    have hprev : getPrev d nextId = 0 := h.getPrev_eq
    rw [ascendLoop, if_neg h0, hprev, valid_head h hle]
    exact succeeds_ok _
  | append_singleton us u ih =>
    obtain ⟨rounds, rfl⟩ : ∃ r, rounds = r + 1 := ⟨rounds - 1, by omega⟩
    have h0 : nextId ≠ 0 := h.mem_ne_zero (by simp)
    have hprev : getPrev d nextId = u := by
      rw [h.getPrev_eq, List.getLastD_concat]
    rw [List.append_assoc, List.singleton_append] at h
    rw [ascendLoop, if_neg h0, hprev, valid_between h, ok_bind]
    by_cases hvalid : NICR ≤ rate u ∧ rate nextId ≤ NICR
    · rw [decide_eq_true hvalid]
      exact succeeds_ok _
    · rw [decide_eq_false hvalid]
      have habove : rate u ≤ NICR := by omega
      exact ih rounds h habove (by simpa using hrounds)

theorem descendList_succeeds (h : IsChain d ids) (hstart : startId = d.head ∨ startId ∈ ids ∧ NICR ≤ rate startId) :
    Succeeds (descendList d (fun a => .ok (rate a)) NICR startId) := by
  unfold descendList fitsBeforeHead
  by_cases hhead : d.head = startId
  · rw [if_pos hhead, ok_bind]
    by_cases hfirst : rate startId ≤ NICR
    · simp [hfirst]
    · simp only [hfirst, decide_false, Bool.false_eq_true, if_false, pure_bind]
      cases ids with
      | nil =>
        have h0 : startId = 0 := hhead ▸ h.head
        rw [h0, descendLoop, if_pos rfl]
        exact succeeds_ok _
      | cons y ys =>
        have hy : startId = y := hhead ▸ h.head
        have hsize := h.size
        rw [List.length_cons] at hsize
        exact descendLoop_succeeds (hy ▸ h : IsChain d ([] ++ startId :: ys)) (by omega) (by omega)
  · obtain ⟨hmem, hle⟩ := hstart.resolve_left fun e => hhead e.symm
    obtain ⟨us, vs, rfl⟩ := List.append_of_mem hmem
    have hsize := h.size
    rw [List.length_append, List.length_cons] at hsize
    rw [if_neg hhead, ok_bind]
    exact descendLoop_succeeds h hle (by omega)

theorem ascendList_succeeds (h : IsChain d ids) (hmem : startId ∈ ids) (hle : rate startId ≤ NICR) :
    Succeeds (ascendList d (fun a => .ok (rate a)) NICR startId) := by
  obtain ⟨us, vs, rfl⟩ := List.append_of_mem hmem
  have hsize := h.size
  rw [List.length_append, List.length_cons] at hsize
  have hloop := ascendLoop_succeeds (d.size + 2) h hle (by omega)
  unfold ascendList fitsAfterTail
  by_cases htail : d.tail = startId
  · rw [if_pos htail, ok_bind]
    by_cases hlast : NICR ≤ rate startId
    · simp [hlast]
    · simpa [hlast] using hloop
  · rw [if_neg htail, ok_bind]
    exact hloop

/-- from any two hints -/
theorem insertPosition_succeeds (h : IsChain d ids) (rate : Address → ℕ) (NICR : ℕ) (prevId nextId : Address) :
    Succeeds (insertPosition d (fun a => .ok (rate a)) NICR prevId nextId) := by
  refine (validInsertPosition_succeeds d rate NICR prevId nextId).bind fun valid _ => ?_
  cases valid with
  | true => exact succeeds_ok _
  | false =>
    refine (checkedHint_succeeds d rate prevId _).bind fun a ha => (checkedHint_succeeds d rate nextId _).bind fun b hb => ?_
    by_cases hnone : a = 0 ∧ b = 0
    · rw [if_pos hnone]
      exact descendList_succeeds h (.inl rfl)
    rw [if_neg hnone]
    by_cases ha0 : a = 0
    · obtain ⟨hc, r, hr, hside⟩ := (checkedHint_ok hb).resolve_left fun e => hnone ⟨ha0, e⟩
      cases hr
      rw [if_pos ha0]
      exact ascendList_succeeds h ((h.contains_iff b).1 hc) (by simpa using hside)
    · obtain ⟨hc, r, hr, hside⟩ := (checkedHint_ok ha).resolve_left ha0
      cases hr
      rw [if_neg ha0]
      exact descendList_succeeds h (.inr ⟨(h.contains_iff a).1 hc, by simpa using hside⟩)

/-! ## Operations -/

/-- what a position is, checked by the contract itself -/
theorem Position.valid (h : IsChain d ids) (hpos : Position ids (fun a => .ok (rate a)) NICR prevId nextId us vs) :
    validInsertPosition d (fun a => .ok (rate a)) NICR prevId nextId = .ok true := by
  obtain rfl := hpos.split
  obtain rfl := hpos.prev
  obtain rfl := hpos.next
  rcases us.eq_nil_or_concat with rfl | ⟨us, u, rfl⟩
  · cases vs with
    | nil =>
      have hsize : isEmpty d = true := decide_eq_true h.size
      rw [← hsize]
      exact if_pos ⟨rfl, rfl⟩
    | cons v vs =>
      obtain ⟨r, hr, hle⟩ := hpos.below (by simp)
      cases hr
      exact valid_head h hle
  · rw [List.concat_eq_append] at h hpos ⊢
    obtain ⟨r, hr, hle⟩ := hpos.above (by simp)
    cases hr
    rw [List.getLastD_concat] at hle ⊢
    cases vs with
    | nil =>
      rw [List.append_nil] at h
      exact valid_tail h hle
    | cons v vs =>
      obtain ⟨r, hr, hle'⟩ := hpos.below (by simp)
      cases hr
      rw [List.append_assoc, List.singleton_append] at h
      exact (valid_between h).trans (congrArg _ (decide_eq_true ⟨hle, hle'⟩))

/-- the list has room in the counter for one more node -/
theorem IsChain.size_lt (h : IsChain d ids) : d.size + 1 < 2 ^ 256 := by
  have hle := h.nodup.length_le_card
  have hcard : Fintype.card Address = 2 ^ 160 := Fintype.card_fin _
  rw [← h.size, hcard] at hle
  exact (Nat.succ_le_succ hle).trans_lt (by decide)

theorem insert_succeeds (h : IsChain d ids) (rate : Address → ℕ) (hid : id ∉ ids) (h0 : id ≠ 0) (hN : 0 < NICR)
    (hfull : isFull d = false) (prevId nextId : Address) :
    Succeeds (insert d (fun a => .ok (rate a)) id NICR prevId nextId) := by
  have hnew : contains d id = false := by
    rw [← Bool.not_eq_true, h.contains_iff]
    exact hid
  simp only [insert, require]
  rw [if_pos hfull, if_pos hnew, if_pos h0, if_pos hN]
  simp only [ok_bind]
  refine (insertPosition_succeeds h rate NICR prevId nextId).bind fun x _ => ?_
  have hsize : Succeeds (uadd d.size 1) := ⟨_, uadd_ok.2 ⟨h.size_lt, rfl⟩⟩
  exact hsize.bind fun _ _ => succeeds_ok _

theorem remove_succeeds (h : IsChain d ids) (hid : id ∈ ids) : Succeeds (remove d id) := by
  have hpos := List.length_pos_of_mem hid
  rw [← h.size] at hpos
  simp only [remove, require]
  rw [if_pos ((h.contains_iff id).2 hid), ok_bind, unlink_size]
  have hsize : Succeeds (usub d.size 1) := ⟨_, usub_ok.2 ⟨hpos, rfl⟩⟩
  exact hsize.bind fun _ _ => succeeds_ok _

/-- `id` was put between `us` and `vs`, which are the nodes of the old list in their order -/
structure Inserted (d d' : Data) (ids : List Address) (rate : Address → ℕ) (id : Address) (NICR : ℕ) (us vs : List Address) :
    Prop where
  split : ids = us ++ vs
  chain : IsChain d' (us ++ id :: vs)
  valid : validInsertPosition d (fun a => .ok (rate a)) NICR (us.getLastD 0) (vs.headD 0) = .ok true
  sorted : Descending rate ids → Descending (Function.update rate id NICR) (us ++ id :: vs)

theorem insert_inserted {d' : Data} (h : IsChain d ids) (hi : insert d (fun a => .ok (rate a)) id NICR prevId nextId = .ok d') :
    ∃ us vs, Inserted d d' ids rate id NICR us vs := by
  obtain ⟨hid, -, -, p, n, us, vs, hpos, hchain⟩ := insert_chain h hi
  have hvalid := hpos.valid h
  rw [hpos.prev, hpos.next] at hvalid
  refine ⟨us, vs, hpos.split, hchain, hvalid, fun hsorted => ?_⟩
  have hrate : ∀ a ∈ ids, Function.update rate id NICR a = rate a := by
    intro a ha
    have hne : a ≠ id := fun e => hid (e ▸ ha)
    exact Function.update_of_ne hne _ _
  exact hpos.descending (fun a ha => congrArg _ (hrate a ha).symm) (hsorted.congr hrate) (Function.update_self _ _ _)

/-- **Insertions, removals and moves.** For nodes in any order, any ratios and any two hints: a new node gets a valid position
and the others keep theirs, a node is taken out, and a node is moved to a valid position of the list without it. -/
theorem sortedTroves_total (d : Data) (ids : List Address) (h : IsChain d ids) (rate : Address → ℕ) (id : Address) :
    (id ∉ ids → id ≠ 0 → isFull d = false → ∀ NICR prevId nextId, 0 < NICR →
      ∃ d' us vs, insert d (fun a => .ok (rate a)) id NICR prevId nextId = .ok d' ∧ Inserted d d' ids rate id NICR us vs) ∧
    ∀ xs ys, ids = xs ++ id :: ys →
      ∃ d₁, remove d id = .ok d₁ ∧ IsChain d₁ (xs ++ ys) ∧
        (isFull d₁ = false → ∀ NICR prevId nextId, 0 < NICR →
          ∃ d' us vs, reInsert d (fun a => .ok (rate a)) id NICR prevId nextId = .ok d' ∧
            Inserted d₁ d' (xs ++ ys) rate id NICR us vs) := by
  refine ⟨fun hid h0 hfull NICR prevId nextId hN => ?_, ?_⟩
  · obtain ⟨d', hd'⟩ := insert_succeeds h rate hid h0 hN hfull prevId nextId
    obtain ⟨us, vs, hinserted⟩ := insert_inserted h hd'
    exact ⟨d', us, vs, hd', hinserted⟩
  · rintro xs ys rfl
    have hmem : id ∈ xs ++ id :: ys := by simp
    obtain ⟨d₁, hd₁⟩ := remove_succeeds h hmem
    have hchain := remove_split h hd₁
    refine ⟨d₁, hd₁, hchain, fun hfull NICR prevId nextId hN => ?_⟩
    have hout : id ∉ xs ++ ys := (List.nodup_cons.1 (List.nodup_middle.1 h.nodup)).1
    obtain ⟨d', hd'⟩ := insert_succeeds hchain rate hout (h.mem_ne_zero hmem) hN hfull prevId nextId
    obtain ⟨us, vs, hinserted⟩ := insert_inserted hchain hd'
    refine ⟨d', us, vs, ?_, hinserted⟩
    rw [reInsert, require, if_pos ((h.contains_iff id).2 hmem), ok_bind, require, if_pos hN, ok_bind, hd₁, ok_bind]
    exact hd'

/-- two nodes, which are not in order of the ratios `risingRate` -/
def twoNodes : Data :=
  ⟨1, 2, 10, 2, fun a => if a = 1 then ⟨true, 2, 0⟩ else if a = 2 then ⟨true, 0, 1⟩ else .empty⟩

def risingRate (a : Address) : ℕ := if a = 1 then 5 else 9

theorem twoNodes_chain : IsChain twoNodes [1, 2] where
  nodup := by decide
  nonzero := by decide
  size := rfl
  head := rfl
  tail := rfl
  node := by
    intro xs id ys h
    rcases xs with _ | ⟨x, _ | ⟨y, xs⟩⟩
    · obtain ⟨rfl, rfl⟩ := List.cons.inj h
      rfl
    · simp only [List.cons_append, List.nil_append, List.cons.injEq] at h
      obtain ⟨rfl, rfl, rfl⟩ := h
      rfl
    · simp at h
  absent := by
    intro a ha
    simp only [List.mem_cons, List.not_mem_nil, or_false, not_or] at ha
    simp [twoNodes, ha]

/-- a node for a ratio of 7, with an absent address and the node itself as hints -/
theorem sortedTroves_total_two :
    ∃ d' us vs, insert twoNodes (fun a => .ok (risingRate a)) 3 7 8 3 = .ok d' ∧
      Inserted twoNodes d' [1, 2] risingRate 3 7 us vs :=
  (sortedTroves_total twoNodes [1, 2] twoNodes_chain risingRate 3).1 (by decide) (by decide) rfl 7 8 3 (by decide)

end SimContracts.SortedTroves
