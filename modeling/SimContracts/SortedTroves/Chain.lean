/-
The linked list of troves represents a list of addresses, from the head to the tail. Inserting a node puts its address
between two neighbours, removing one takes it out. Both hold whatever the ratios are: also where the nodes are not in
order, a search that succeeds ends at two neighbours.

Results:
  insert_chain          a new node goes between neighbours whose ratios are on the right sides
  remove_chain          a node is taken out
  Position.descending   on a list in order, a node inserted by its ratio keeps the order
-/
import SimContracts.SortedTroves

namespace SimContracts.SortedTroves

open Solidity

/-! ## Lists of nodes -/

/-- the nodes are those of `ids`, in this order -/
structure IsChain (d : Data) (ids : List Address) : Prop where
  nodup : ids.Nodup
  nonzero : 0 ∉ ids
  size : d.size = ids.length
  head : d.head = ids.headD 0
  tail : d.tail = ids.getLastD 0
  node : ∀ xs id ys, ids = xs ++ id :: ys → d.nodes id = ⟨true, ys.headD 0, xs.getLastD 0⟩
  absent : ∀ id, id ∉ ids → d.nodes id = .empty

theorem init_chain (maxSize : ℕ) : IsChain (init maxSize) [] where
  nodup := .nil
  nonzero := List.not_mem_nil
  size := rfl
  head := rfl
  tail := rfl
  node := fun xs id ys h => absurd h (by simp)
  absent := fun _ _ => rfl

theorem getLastD_mem {xs : List Address} (h : xs.getLastD 0 ≠ 0) : xs.getLastD 0 ∈ xs := by
  rcases xs.eq_nil_or_concat with rfl | ⟨xs, x, rfl⟩
  · exact absurd rfl h
  · simp

theorem headD_mem {ys : List Address} (h : ys.headD 0 ≠ 0) : ys.headD 0 ∈ ys := by
  cases ys with
  | nil => exact absurd rfl h
  | cons y ys => simp

variable {d d' : Data} {ids xs ys : List Address} {id prevId nextId : Address} {nicr : Address → Res ℕ} {NICR : ℕ}

namespace IsChain

theorem contains_iff (h : IsChain d ids) (id : Address) : contains d id = true ↔ id ∈ ids := by
  unfold contains
  constructor
  · intro hex
    by_contra hmem
    rw [h.absent id hmem] at hex
    exact Bool.noConfusion hex
  · intro hmem
    obtain ⟨xs, ys, heq⟩ := List.append_of_mem hmem
    rw [h.node xs id ys heq]

theorem getNext_eq (h : IsChain d (xs ++ id :: ys)) : getNext d id = ys.headD 0 := by
  rw [getNext, h.node xs id ys rfl]

theorem getPrev_eq (h : IsChain d (xs ++ id :: ys)) : getPrev d id = xs.getLastD 0 := by
  rw [getPrev, h.node xs id ys rfl]

/-- the zero address is no node -/
theorem node_zero (h : IsChain d ids) : d.nodes 0 = .empty := h.absent 0 h.nonzero

theorem mem_ne_zero (h : IsChain d ids) (hid : id ∈ ids) : id ≠ 0 := fun h0 => h.nonzero (h0 ▸ hid)

theorem headD_eq_zero (h : IsChain d ids) (hys : ids = xs ++ ys) : ys.headD 0 = 0 ↔ ys = [] := by
  cases ys with
  | nil => simp
  | cons y ys => simpa using h.mem_ne_zero (show y ∈ _ by simp [hys])

theorem getLastD_eq_zero (h : IsChain d ids) (hxs : ids = xs ++ ys) : xs.getLastD 0 = 0 ↔ xs = [] := by
  rcases xs.eq_nil_or_concat with rfl | ⟨xs, x, rfl⟩
  · simp
  · simpa using h.mem_ne_zero (show x ∈ _ by simp [hxs])

end IsChain

/-! ## Linking a node -/

/-- a node between two neighbours of the list -/
structure Linked (d d' : Data) (id prevId nextId : Address) : Prop where
  self : d'.nodes id = ⟨true, nextId, prevId⟩
  prev : prevId ≠ 0 → d'.nodes prevId = { d.nodes prevId with nextId := id }
  next : nextId ≠ 0 → d'.nodes nextId = { d.nodes nextId with prevId := id }
  other : ∀ a, a ≠ id → (prevId ≠ 0 → a ≠ prevId) → (nextId ≠ 0 → a ≠ nextId) → d'.nodes a = d.nodes a
  head : d'.head = if prevId = 0 then id else d.head
  tail : d'.tail = if nextId = 0 then id else d.tail

theorem Linked.chain (hl : Linked d d' id (xs.getLastD 0) (ys.headD 0)) (h : IsChain d (xs ++ ys)) (hid : id ∉ xs ++ ys)
    (h0 : id ≠ 0) (hsize : d'.size = d.size + 1) : IsChain d' (xs ++ id :: ys) := by
  have hnodup := List.nodup_append.1 h.nodup
  have hprev : ∀ a ∈ ys, xs.getLastD 0 ≠ 0 → a ≠ xs.getLastD 0 :=
    fun a ha hne heq => hnodup.2.2 _ (getLastD_mem hne) a ha heq.symm
  have hnext : ∀ a ∈ xs, ys.headD 0 ≠ 0 → a ≠ ys.headD 0 :=
    fun a ha hne heq => hnodup.2.2 a ha _ (headD_mem hne) heq
  refine ⟨?_, ?_, ?_, ?_, ?_, ?_, ?_⟩
  · rw [List.nodup_middle]
    exact List.nodup_cons.2 ⟨hid, h.nodup⟩
  · have := h.nonzero
    simp only [List.mem_append, List.mem_cons, not_or] at this ⊢
    exact ⟨this.1, h0.symm, this.2⟩
  · rw [hsize, h.size]
    simp
    omega
  · rw [hl.head, h.head]
    cases xs with
    | nil => simp
    | cons x xs =>
      have : (x :: xs).getLastD 0 ≠ 0 := fun e => absurd ((h.getLastD_eq_zero rfl).1 e) (by simp)
      rw [if_neg this]
      simp
  · rw [hl.tail, h.tail]
    cases ys with
    | nil => simp
    | cons y ys =>
      have : (y :: ys).headD 0 ≠ 0 := fun e => absurd ((h.headD_eq_zero rfl).1 e) (by simp)
      rw [if_neg this]
      simp [List.getLastD_eq_getLast?, List.getLast?_append]
  · intro us a vs heq
    rcases List.append_eq_append_iff.1 heq with ⟨zs, rfl, hzs⟩ | ⟨zs, rfl, hzs⟩
    · cases zs with
      | nil =>
        obtain ⟨rfl, rfl⟩ : id = a ∧ ys = vs := by simpa using hzs
        rw [hl.self, List.append_nil]
      | cons z zs =>
        -- the node comes after the new one
        obtain ⟨rfl, rfl⟩ : id = z ∧ ys = zs ++ a :: vs := by simpa using hzs
        have hold := h.node (xs ++ zs) a vs (by simp)
        have hne : a ≠ id := fun e => hid (by simp [e])
        cases zs with
        | nil =>
          have h1 := hl.next (h.mem_ne_zero (by simp))
          rw [show (([] : List Address) ++ a :: vs).headD 0 = a by simp] at h1
          rw [h1, hold]
          simp
        | cons z zs =>
          rw [hl.other a hne (hprev a (by simp)) (fun _ e => ?_), hold]
          · simp [List.getLastD_eq_getLast?, List.getLast?_append]
          · have hz : a = z := by simpa using e
            have := hnodup.2.1
            simp [hz] at this
    · cases zs with
      | nil =>
        obtain ⟨rfl, rfl⟩ : a = id ∧ vs = ys := by simpa [eq_comm] using hzs
        rw [List.append_nil] at hl
        rw [hl.self]
      | cons z zs =>
        -- the node comes before the new one
        obtain ⟨rfl, rfl⟩ : a = z ∧ vs = zs ++ id :: ys := by simpa using hzs
        have hold := h.node us a (zs ++ ys) (by simp)
        have hne : a ≠ id := fun e => hid (by simp [e])
        rcases zs.eq_nil_or_concat with rfl | ⟨zs, z, rfl⟩
        · have h1 := hl.prev (by simpa using h.mem_ne_zero (show a ∈ _ by simp))
          rw [show (us ++ [a]).getLastD 0 = a by simp] at h1
          rw [h1, hold]
          simp
        · rw [hl.other a hne (fun _ e => ?_) (hnext a (by simp)), hold]
          · cases zs <;> simp
          · rw [show us ++ a :: zs.concat z = (us ++ a :: zs) ++ [z] by simp] at e hnodup
            have hz : a = z := e.trans List.getLastD_concat
            exact (List.nodup_append.1 hnodup.1).2.2 z (by simp [hz]) z (by simp) rfl
  · intro a ha
    have hold := h.absent a (by simp only [List.mem_append, List.mem_cons, not_or] at ha ⊢; exact ⟨ha.1, ha.2.2⟩)
    rw [hl.other a (fun e => ha (by simp [e])) ?_ ?_, hold]
    · intro hne e
      exact ha (List.mem_append_left _ (e ▸ getLastD_mem hne))
    · intro hne e
      exact ha (List.mem_append_right _ (List.mem_cons_of_mem _ (e ▸ headD_mem hne)))

theorem link_linked (hnew : d.nodes id = .empty) (hprev : prevId ≠ id) (hnext : nextId ≠ id)
    (hne : prevId ≠ 0 → prevId ≠ nextId) (hhead : prevId = 0 → nextId ≠ 0 → d.head = nextId)
    (htail : nextId = 0 → prevId ≠ 0 → d.tail = prevId) : Linked d (link d id prevId nextId) id prevId nextId := by
  unfold link
  dsimp only
  split_ifs with h1 h2 h3
  · obtain ⟨rfl, rfl⟩ := h1
    refine ⟨?_, fun h => absurd rfl h, fun h => absurd rfl h, fun a ha _ _ => ?_, by simp, by simp⟩
    · simp [hnew, Node.empty]
    · simp [Function.update_of_ne ha]
  · subst h2
    have hn : nextId ≠ 0 := fun e => h1 ⟨rfl, e⟩
    have hd := hhead rfl hn
    refine ⟨?_, fun h => absurd rfl h, fun _ => ?_, fun a ha _ hna => ?_, by simp, by simp [hn, setNext, setPrev]⟩
    · simp [setNext, setPrev, hd, Function.update_of_ne hnext.symm, hnew, Node.empty]
    · simp [setNext, setPrev, hd, Function.update_of_ne hnext]
    · simp [setNext, setPrev, hd, Function.update_of_ne ha, Function.update_of_ne (hna hn)]
  · subst h3
    have hd := htail rfl h2
    refine ⟨?_, fun _ => ?_, fun h => absurd rfl h, fun a ha hpa _ => ?_, by simp [h2, setNext, setPrev], by simp⟩
    · simp [setNext, setPrev, hd, Function.update_of_ne hprev.symm, hnew, Node.empty]
    · simp [setNext, setPrev, hd, Function.update_of_ne hprev]
    · simp [setNext, setPrev, hd, Function.update_of_ne ha, Function.update_of_ne (hpa h2)]
  · have hpn := hne h2
    refine ⟨?_, fun _ => ?_, fun _ => ?_, fun a ha hpa hna => ?_, by simp [h2, setNext, setPrev],
      by simp [h3, setNext, setPrev]⟩
    · simp [setNext, setPrev, Function.update_of_ne hnext.symm, Function.update_of_ne hprev.symm, hnew, Node.empty]
    · simp [setNext, setPrev, Function.update_of_ne hprev, Function.update_of_ne hpn]
    · simp [setNext, setPrev, Function.update_of_ne hnext, Function.update_of_ne hpn.symm]
    · simp [setNext, setPrev, Function.update_of_ne ha, Function.update_of_ne (hpa h2), Function.update_of_ne (hna h3)]

/-! ## Finding the position -/

/-- the two addresses are neighbours in the list, with the new ratio between theirs -/
structure Position (ids : List Address) (nicr : Address → Res ℕ) (NICR : ℕ) (prevId nextId : Address)
    (xs ys : List Address) : Prop where
  split : ids = xs ++ ys
  prev : prevId = xs.getLastD 0
  next : nextId = ys.headD 0
  above : xs ≠ [] → ∃ r, nicr prevId = .ok r ∧ NICR ≤ r
  below : ys ≠ [] → ∃ r, nicr nextId = .ok r ∧ r ≤ NICR

theorem validInsertPosition_position (h : IsChain d ids) (hv : validInsertPosition d nicr NICR prevId nextId = .ok true) :
    ∃ xs ys, Position ids nicr NICR prevId nextId xs ys := by
  unfold validInsertPosition at hv
  split_ifs at hv with h1 h2 h3 h4 h5 h6
  · obtain ⟨rfl, rfl⟩ := h1
    have hnil : ids = [] := by
      have hsize : d.size = 0 := by simpa [isEmpty] using hv
      exact List.length_eq_zero_iff.1 (h.size ▸ hsize)
    exact ⟨[], [], hnil, rfl, rfl, fun e => absurd rfl e, fun e => absurd rfl e⟩
  · subst h2
    obtain ⟨r, hr, hv⟩ := bind_ok.1 hv
    have hle : r ≤ NICR := by simpa using hv
    refine ⟨[], ids, rfl, rfl, ?_, fun e => absurd rfl e, fun _ => ⟨r, hr, hle⟩⟩
    rw [← h3, h.head]
  · cases hv
  · subst h4
    obtain ⟨r, hr, hv⟩ := bind_ok.1 hv
    have hle : NICR ≤ r := by simpa using hv
    refine ⟨ids, [], by simp, ?_, rfl, fun _ => ⟨r, hr, hle⟩, fun e => absurd rfl e⟩
    rw [← h5, h.tail]
  · cases hv
  · obtain ⟨r, hr, hv⟩ := bind_ok.1 hv
    split_ifs at hv with hle
    · obtain ⟨r', hr', hv⟩ := bind_ok.1 hv
      have hle' : r' ≤ NICR := by simpa using hv
      have hmem : prevId ∈ ids := by
        by_contra hcon
        rw [h.absent _ hcon] at h6
        exact h4 h6.symm
      obtain ⟨xs, ys, rfl⟩ := List.append_of_mem hmem
      have hnext := h.getNext_eq
      refine ⟨xs ++ [prevId], ys, by simp, by simp, ?_, fun _ => ⟨r, hr, hle⟩, fun _ => ⟨r', hr', hle'⟩⟩
      rw [← h6]
      exact hnext
    · cases hv
  · cases hv

theorem Position.nil : Position [] nicr NICR 0 0 [] [] :=
  ⟨rfl, rfl, rfl, fun e => absurd rfl e, fun e => absurd rfl e⟩

/-- downwards from a node above the new ratio: the walk stops at the latest at the tail -/
theorem descendLoop_position (h : IsChain d ids) {rounds r : ℕ} {p n : Address} (hmem : prevId ∈ ids)
    (hr : nicr prevId = .ok r) (hle : NICR ≤ r)
    (hl : descendLoop d nicr NICR rounds prevId (getNext d prevId) = .ok (p, n)) :
    ∃ xs ys, Position ids nicr NICR p n xs ys := by
  induction rounds generalizing prevId r with
  | zero => cases hl
  | succ rounds ih =>
    have h0 := h.mem_ne_zero hmem
    rw [descendLoop, if_neg h0] at hl
    obtain ⟨valid, hv, hl⟩ := bind_ok.1 hl
    cases valid with
    | true =>
      cases hl
      exact validInsertPosition_position h hv
    | false =>
      obtain ⟨xs, ys, rfl⟩ := List.append_of_mem hmem
      have hnext := h.getNext_eq
      cases ys with
      | nil =>
        -- the tail is a valid position
        have htail : d.tail = prevId := by simp [h.tail]
        rw [hnext] at hv
        simp [validInsertPosition, h0, htail, hr, bind, Except.bind, pure, Except.pure, hle] at hv
      | cons y ys =>
        have hy : getNext d prevId = y := by simpa using hnext
        have hy0 : y ≠ 0 := h.mem_ne_zero (by simp)
        have hnode : (d.nodes prevId).nextId = y := hy
        rw [hy] at hv hl
        rw [validInsertPosition, if_neg (by simp [h0]), if_neg h0, if_neg hy0, if_pos hnode, hr, ok_bind, if_pos hle] at hv
        obtain ⟨r', hr', hv⟩ := bind_ok.1 hv
        have hlt : NICR < r' := by simpa using hv
        exact ih (by simp) hr' hlt.le hl

/-- upwards from a node below the new ratio: the walk stops at the latest at the head -/
theorem ascendLoop_position (h : IsChain d ids) {rounds r : ℕ} {p n : Address} (hmem : nextId ∈ ids)
    (hr : nicr nextId = .ok r) (hle : r ≤ NICR)
    (hl : ascendLoop d nicr NICR rounds (getPrev d nextId) nextId = .ok (p, n)) :
    ∃ xs ys, Position ids nicr NICR p n xs ys := by
  induction rounds generalizing nextId r with
  | zero => cases hl
  | succ rounds ih =>
    have h0 := h.mem_ne_zero hmem
    rw [ascendLoop, if_neg h0] at hl
    obtain ⟨valid, hv, hl⟩ := bind_ok.1 hl
    cases valid with
    | true =>
      cases hl
      exact validInsertPosition_position h hv
    | false =>
      obtain ⟨xs, ys, rfl⟩ := List.append_of_mem hmem
      have hprev := h.getPrev_eq
      rcases xs.eq_nil_or_concat with rfl | ⟨xs, x, rfl⟩
      · -- before the head is a valid position
        have hhead : d.head = nextId := by simp [h.head]
        rw [hprev] at hv
        simp [validInsertPosition, h0, hhead, hr, bind, Except.bind, pure, Except.pure, hle] at hv
      · have hx : getPrev d nextId = x := by simpa using hprev
        have hx0 : x ≠ 0 := h.mem_ne_zero (by simp)
        have hnode : (d.nodes x).nextId = nextId := by
          have := h.node xs x (nextId :: ys) (by simp)
          rw [this]
          simp
        rw [hx] at hv hl
        rw [validInsertPosition, if_neg (by simp [h0]), if_neg hx0, if_neg h0, if_pos hnode] at hv
        obtain ⟨r', hr', hv⟩ := bind_ok.1 hv
        rw [hr, ok_bind] at hv
        have hlt : r' < NICR := by
          by_contra hcon
          rw [if_pos (not_lt.1 hcon)] at hv
          simp [hle] at hv
        exact ih (by simp) hr' hlt.le hl

theorem descendList_position (h : IsChain d ids) {startId p n : Address}
    (hstart : startId = d.head ∨ startId ∈ ids ∧ ∃ r, nicr startId = .ok r ∧ NICR ≤ r)
    (hl : descendList d nicr NICR startId = .ok (p, n)) : ∃ xs ys, Position ids nicr NICR p n xs ys := by
  obtain ⟨first, hf, hl⟩ := bind_ok.1 hl
  by_cases hempty : ids = []
  · -- an empty list has one position
    subst hempty
    have hhead : d.head = 0 := h.head
    have h0 : startId = 0 := by
      rcases hstart with hs | ⟨hs, -⟩
      · rw [hs, hhead]
      · exact absurd hs List.not_mem_nil
    subst h0
    have hnext : getNext d 0 = 0 := by rw [getNext, h.node_zero]; rfl
    obtain ⟨rfl, rfl⟩ : p = 0 ∧ n = 0 := by
      cases first with
      | true =>
        cases hl
        exact ⟨rfl, rfl⟩
      | false =>
        rw [if_neg (by simp), descendLoop, if_pos rfl, hnext] at hl
        cases hl
        exact ⟨rfl, rfl⟩
    exact ⟨[], [], .nil⟩
  · obtain ⟨y, ys, rfl⟩ := List.exists_cons_of_ne_nil hempty
    have hhead : d.head = y := by simp [h.head]
    by_cases heq : d.head = startId
    · rw [fitsBeforeHead, if_pos heq] at hf
      obtain ⟨r, hr, hfirst⟩ := bind_ok.1 hf
      have hmem : startId ∈ y :: ys := by
        rw [← heq, hhead]
        exact List.mem_cons_self
      cases first with
      | true =>
        have hle : r ≤ NICR := by simpa using hfirst
        obtain ⟨rfl, rfl⟩ : 0 = p ∧ startId = n := by simpa using hl
        refine ⟨[], y :: ys, rfl, rfl, ?_, fun e => absurd rfl e, fun _ => ⟨r, hr, hle⟩⟩
        rw [← heq, h.head]
      | false =>
        have hlt : NICR < r := by simpa using hfirst
        exact descendLoop_position h hmem hr hlt.le hl
    · rw [fitsBeforeHead, if_neg heq] at hf
      cases hf
      obtain ⟨hmem, r, hr, hle⟩ := hstart.resolve_left fun e => heq e.symm
      exact descendLoop_position h hmem hr hle hl

theorem ascendList_position (h : IsChain d ids) {startId p n : Address} (hmem : startId ∈ ids) {r : ℕ}
    (hr : nicr startId = .ok r) (hle : r ≤ NICR) (hl : ascendList d nicr NICR startId = .ok (p, n)) :
    ∃ xs ys, Position ids nicr NICR p n xs ys := by
  obtain ⟨last, hf, hl⟩ := bind_ok.1 hl
  by_cases heq : d.tail = startId
  · rw [fitsAfterTail, if_pos heq] at hf
    obtain ⟨r', hr', hf⟩ := bind_ok.1 hf
    cases last with
    | true =>
      cases hl
      have hle' : NICR ≤ r' := by simpa using hf
      refine ⟨ids, [], by simp, ?_, rfl, fun _ => ⟨r', hr', hle'⟩, fun e => absurd rfl e⟩
      rw [← heq, h.tail]
    | false => exact ascendLoop_position h hmem hr hle hl
  · rw [fitsAfterTail, if_neg heq] at hf
    cases hf
    exact ascendLoop_position h hmem hr hle hl

theorem checkedHint_ok {wrongSide : ℕ → Bool} {a : Address} (h : checkedHint d nicr id wrongSide = .ok a) :
    a = 0 ∨ contains d a = true ∧ ∃ r, nicr a = .ok r ∧ wrongSide r = false := by
  unfold checkedHint at h
  split_ifs at h with h0 hc
  · cases h
    exact .inl rfl
  · cases h
    exact .inl rfl
  · obtain ⟨r, hr, h⟩ := bind_ok.1 h
    split_ifs at h with hw
    · cases h
      exact .inl rfl
    · cases h
      exact .inr ⟨by simpa using hc, r, hr, by simpa using hw⟩

theorem findInsertPosition_position (h : IsChain d ids) {p n : Address}
    (hf : findInsertPosition d nicr NICR prevId nextId = .ok (p, n)) : ∃ xs ys, Position ids nicr NICR p n xs ys := by
  obtain ⟨a, ha, hf⟩ := bind_ok.1 hf
  obtain ⟨b, hb, hf⟩ := bind_ok.1 hf
  split_ifs at hf with h1 h2
  · exact descendList_position h (.inl rfl) hf
  · have hb0 : b ≠ 0 := fun e => h1 ⟨h2, e⟩
    obtain ⟨hc, r, hr, hw⟩ := (checkedHint_ok hb).resolve_left hb0
    exact ascendList_position h ((h.contains_iff b).1 hc) hr (by simpa using hw) hf
  · obtain ⟨hc, r, hr, hw⟩ := (checkedHint_ok ha).resolve_left h2
    exact descendList_position h (.inr ⟨(h.contains_iff a).1 hc, r, hr, by simpa using hw⟩) hf

theorem insertPosition_position (h : IsChain d ids) {p n : Address}
    (hi : insertPosition d nicr NICR prevId nextId = .ok (p, n)) : ∃ xs ys, Position ids nicr NICR p n xs ys := by
  obtain ⟨valid, hv, hi⟩ := bind_ok.1 hi
  cases valid with
  | true =>
    cases hi
    exact validInsertPosition_position h hv
  | false => exact findInsertPosition_position h hi

/-! ## Operations -/

/-- **A new node.** It goes between two neighbours, with a ratio at most that of the one above it and at least that of
the one below it. -/
theorem insert_chain (h : IsChain d ids) (hi : insert d nicr id NICR prevId nextId = .ok d') :
    id ∉ ids ∧ id ≠ 0 ∧ 0 < NICR ∧ ∃ p n xs ys, Position ids nicr NICR p n xs ys ∧ IsChain d' (xs ++ id :: ys) := by
  simp only [insert, require_bind] at hi
  obtain ⟨-, hc, h0, hN, hi⟩ := hi
  obtain ⟨⟨p, n⟩, hpos, hi⟩ := bind_ok.1 hi
  simp only [uadd_bind, pure_ok] at hi
  obtain ⟨-, rfl⟩ := hi
  have hid : id ∉ ids := by
    intro hmem
    rw [(h.contains_iff id).2 hmem] at hc
    exact Bool.noConfusion hc
  obtain ⟨xs, ys, hp⟩ := insertPosition_position h hpos
  obtain rfl := hp.split
  obtain rfl := hp.prev
  obtain rfl := hp.next
  have hnodup := List.nodup_append.1 h.nodup
  have hprev : xs.getLastD 0 ≠ id := by
    rintro rfl
    exact hid (List.mem_append_left _ (getLastD_mem h0))
  have hnext : ys.headD 0 ≠ id := by
    rintro rfl
    exact hid (List.mem_append_right _ (headD_mem h0))
  have hne : xs.getLastD 0 ≠ 0 → xs.getLastD 0 ≠ ys.headD 0 := by
    intro hx e
    exact hnodup.2.2 _ (getLastD_mem hx) _ (headD_mem (e ▸ hx)) e
  have hhead : xs.getLastD 0 = 0 → ys.headD 0 ≠ 0 → d.head = ys.headD 0 := by
    intro hx _
    obtain rfl := (h.getLastD_eq_zero rfl).1 hx
    simpa using h.head
  have htail : ys.headD 0 = 0 → xs.getLastD 0 ≠ 0 → d.tail = xs.getLastD 0 := by
    intro hy _
    obtain rfl := (h.headD_eq_zero rfl).1 hy
    simpa using h.tail
  have hl := link_linked (h.absent id hid) hprev hnext hne hhead htail
  refine ⟨hid, h0, hN, _, _, xs, ys, hp, ?_⟩
  have hlinked : Linked d { link d id (xs.getLastD 0) (ys.headD 0) with size := d.size + 1 } id (xs.getLastD 0) (ys.headD 0) :=
    ⟨hl.self, hl.prev, hl.next, hl.other, hl.head, hl.tail⟩
  exact hlinked.chain h hid h0 rfl

/-- a node taken out from between its neighbours -/
structure Unlinked (d d' : Data) (id prevId nextId : Address) : Prop where
  prev : prevId ≠ 0 → d'.nodes prevId = { d.nodes prevId with nextId := nextId }
  next : nextId ≠ 0 → d'.nodes nextId = { d.nodes nextId with prevId := prevId }
  other : ∀ a, a ≠ id → (prevId ≠ 0 → a ≠ prevId) → (nextId ≠ 0 → a ≠ nextId) → d'.nodes a = d.nodes a
  head : d'.head = if prevId = 0 then nextId else d.head
  tail : d'.tail = if nextId = 0 then prevId else d.tail

theorem unlink_unlinked (h : IsChain d (xs ++ id :: ys)) :
    Unlinked d (unlink d id) id (xs.getLastD 0) (ys.headD 0) := by
  have hnext := h.getNext_eq
  have hprev := h.getPrev_eq
  have hlast := h.getLastD_eq_zero (show _ = xs ++ id :: ys from rfl)
  have hfirst := h.headD_eq_zero (show _ = (xs ++ [id]) ++ ys by simp)
  have hnodup := List.nodup_append.1 h.nodup
  have hhead : id = d.head ↔ xs = [] := by
    rw [h.head]
    cases xs with
    | nil => simp
    | cons x xs =>
      simp only [List.cons_append, List.headD_cons, reduceCtorEq, iff_false]
      intro e
      exact hnodup.2.2 x (by simp) id (by simp) e.symm
  have htail : id = d.tail ↔ ys = [] := by
    rw [h.tail]
    rcases ys.eq_nil_or_concat with rfl | ⟨ys, y, rfl⟩
    · simp
    · rw [show xs ++ id :: ys.concat y = (xs ++ id :: ys) ++ [y] by simp, List.getLastD_concat]
      have hmem := (List.nodup_cons.1 hnodup.2.1).1
      constructor
      · intro e
        exact absurd (by simp [e]) hmem
      · simp
  unfold unlink
  split_ifs with h1 h2 h3
  · -- the head
    obtain rfl := hhead.1 h2
    have hys : ys ≠ [] := by
      rintro rfl
      simp [h.size] at h1
    have h0 : ys.headD 0 ≠ 0 := fun e => hys (hfirst.1 e)
    refine ⟨fun e => absurd rfl e, fun _ => ?_, fun a _ _ ha => ?_, ?_, ?_⟩
    · simp [setPrev, hnext]
    · simp only [setPrev, hnext]
      exact Function.update_of_ne (ha h0) _ _
    · simp [hnext]
    · rw [if_neg h0]
      rfl
  · -- the tail
    obtain rfl := htail.1 h3
    have hxs : xs ≠ [] := fun e => h2 (hhead.2 e)
    have h0 : xs.getLastD 0 ≠ 0 := fun e => hxs (hlast.1 e)
    refine ⟨fun _ => ?_, fun e => absurd rfl e, fun a _ ha _ => ?_, ?_, ?_⟩
    · simp [setNext, hprev]
    · simp only [setNext, hprev]
      exact Function.update_of_ne (ha h0) _ _
    · rw [if_neg h0]
      rfl
    · simp [hprev]
  · -- a node in the middle
    have hxs : xs ≠ [] := fun e => h2 (hhead.2 e)
    have hys : ys ≠ [] := fun e => h3 (htail.2 e)
    have hx0 : xs.getLastD 0 ≠ 0 := fun e => hxs (hlast.1 e)
    have hy0 : ys.headD 0 ≠ 0 := fun e => hys (hfirst.1 e)
    have hxy : xs.getLastD 0 ≠ ys.headD 0 :=
      hnodup.2.2 _ (getLastD_mem hx0) _ (List.mem_cons_of_mem _ (headD_mem hy0))
    have hxid : id ≠ xs.getLastD 0 := (hnodup.2.2 _ (getLastD_mem hx0) id List.mem_cons_self).symm
    have hsame : (setNext d (getPrev d id) (getNext d id)).nodes id = d.nodes id := by
      simp only [setNext, hprev]
      exact Function.update_of_ne hxid _ _
    have hnext' : getNext (setNext d (getPrev d id) (getNext d id)) id = ys.headD 0 := by
      rw [getNext, hsame]
      exact hnext
    have hprev' : getPrev (setNext d (getPrev d id) (getNext d id)) id = xs.getLastD 0 := by
      rw [getPrev, hsame]
      exact hprev
    dsimp only
    rw [hnext', hprev', hnext, hprev]
    refine ⟨fun _ => ?_, fun _ => ?_, fun a _ ha hb => ?_, ?_, ?_⟩
    · simp only [setPrev, setNext]
      rw [Function.update_of_ne hxy, Function.update_self]
    · simp only [setPrev, setNext]
      rw [Function.update_self, Function.update_of_ne hxy.symm]
    · simp only [setPrev, setNext]
      rw [Function.update_of_ne (hb hy0), Function.update_of_ne (ha hx0)]
    · rw [if_neg hx0]
      rfl
    · rw [if_neg hy0]
      rfl
  · -- the only node
    have hlen : xs = [] ∧ ys = [] := by
      have := h.size
      simp only [List.length_append, List.length_cons] at this
      exact ⟨List.length_eq_zero_iff.1 (by omega), List.length_eq_zero_iff.1 (by omega)⟩
    obtain ⟨rfl, rfl⟩ := hlen
    exact ⟨fun e => absurd rfl e, fun e => absurd rfl e, fun _ _ _ _ => rfl, rfl, rfl⟩

theorem Unlinked.chain (hu : Unlinked d d' id (xs.getLastD 0) (ys.headD 0)) (h : IsChain d (xs ++ id :: ys))
    (hself : d'.nodes id = .empty) (hsize : d'.size = d.size - 1) : IsChain d' (xs ++ ys) := by
  have hnodup : id ∉ xs ++ ys ∧ (xs ++ ys).Nodup := List.nodup_cons.1 (List.nodup_middle.1 h.nodup)
  have hparts := List.nodup_append.1 hnodup.2
  have hmem : ∀ {a}, a ∈ xs ++ ys → a ∈ xs ++ id :: ys := by
    intro a ha
    simp only [List.mem_append, List.mem_cons] at ha ⊢
    tauto
  have hprev : ∀ a ∈ ys, xs.getLastD 0 ≠ 0 → a ≠ xs.getLastD 0 :=
    fun a ha hne heq => hparts.2.2 _ (getLastD_mem hne) a ha heq.symm
  have hnext : ∀ a ∈ xs, ys.headD 0 ≠ 0 → a ≠ ys.headD 0 :=
    fun a ha hne heq => hparts.2.2 a ha _ (headD_mem hne) heq
  refine ⟨hnodup.2, fun h0 => h.nonzero (hmem h0), ?_, ?_, ?_, ?_, ?_⟩
  · rw [hsize, h.size]
    simp
  · rw [hu.head, h.head]
    cases xs with
    | nil => simp
    | cons x xs =>
      have : (x :: xs).getLastD 0 ≠ 0 := fun e => absurd ((h.getLastD_eq_zero rfl).1 e) (by simp)
      rw [if_neg this]
      simp
  · rw [hu.tail, h.tail]
    cases ys with
    | nil => simp
    | cons y ys =>
      have : (y :: ys).headD 0 ≠ 0 :=
        fun e => absurd ((h.headD_eq_zero (show _ = (xs ++ [id]) ++ y :: ys by simp)).1 e) (by simp)
      rw [if_neg this]
      simp [List.getLastD_eq_getLast?, List.getLast?_append]
  · intro us a vs heq
    have hne : a ≠ id := by
      rintro rfl
      exact hnodup.1 (by simp [heq])
    rcases List.append_eq_append_iff.1 heq with ⟨zs, rfl, rfl⟩ | ⟨zs, rfl, hzs⟩
    · -- the node comes after the removed one
      have hold := h.node (xs ++ id :: zs) a vs (by simp)
      cases zs with
      | nil =>
        have h1 := hu.next (by simpa using h.mem_ne_zero (show a ∈ _ by simp))
        rw [show (([] : List Address) ++ a :: vs).headD 0 = a by simp] at h1
        rw [h1, hold]
        simp
      | cons z zs =>
        rw [hu.other a hne (hprev a (by simp)) (fun _ e => ?_), hold]
        · simp [List.getLastD_eq_getLast?, List.getLast?_append]
        · have hz : a = z := by simpa using e
          have := hparts.2.1
          simp [hz] at this
    · cases zs with
      | nil =>
        obtain rfl : ys = a :: vs := by simpa [eq_comm] using hzs
        have hold := h.node (us ++ [id]) a vs (by simp)
        rw [List.append_nil] at hu
        have h1 := hu.next (by simpa using h.mem_ne_zero (show a ∈ _ by simp))
        rw [show (a :: vs).headD 0 = a by simp] at h1
        rw [h1, hold]
      | cons z zs =>
        -- the node comes before the removed one
        obtain ⟨rfl, rfl⟩ : a = z ∧ vs = zs ++ ys := by simpa using hzs
        have hold := h.node us a (zs ++ id :: ys) (by simp)
        rcases zs.eq_nil_or_concat with rfl | ⟨zs, z, rfl⟩
        · have h1 := hu.prev (by simpa using h.mem_ne_zero (show a ∈ _ by simp))
          rw [show (us ++ [a]).getLastD 0 = a by simp] at h1
          rw [h1, hold]
          simp
        · rw [hu.other a hne (fun _ e => ?_) (hnext a (by simp)), hold]
          · cases zs <;> simp
          · rw [show us ++ a :: zs.concat z = (us ++ a :: zs) ++ [z] by simp] at e hparts
            have hz : a = z := e.trans List.getLastD_concat
            exact (List.nodup_append.1 hparts.1).2.2 z (by simp [hz]) z (by simp) rfl
  · intro a ha
    by_cases hid : a = id
    · rw [hid, hself]
    · have hold := h.absent a (by simp only [List.mem_append, List.mem_cons, not_or] at ha ⊢; exact ⟨ha.1, hid, ha.2⟩)
      rw [hu.other a hid ?_ ?_, hold]
      · intro hne e
        exact ha (List.mem_append_left _ (e ▸ getLastD_mem hne))
      · intro hne e
        exact ha (List.mem_append_right _ (e ▸ headD_mem hne))

theorem unlink_size (d : Data) (id : Address) : (unlink d id).size = d.size := by
  unfold unlink
  split_ifs <;> rfl

theorem remove_size (h : remove d id = .ok d') : d'.size = d.size - 1 := by
  simp only [remove, require_bind, usub_bind, pure_ok] at h
  obtain ⟨-, -, rfl⟩ := h
  exact congrArg (· - 1) (unlink_size d id)

theorem link_maxSize (d : Data) (id prevId nextId : Address) : (link d id prevId nextId).maxSize = d.maxSize := by
  unfold link
  split_ifs <;> rfl

theorem unlink_maxSize (d : Data) (id : Address) : (unlink d id).maxSize = d.maxSize := by
  unfold unlink
  split_ifs <;> rfl

theorem remove_maxSize (h : remove d id = .ok d') : d'.maxSize = d.maxSize := by
  simp only [remove, require_bind, usub_bind, pure_ok] at h
  obtain ⟨-, -, rfl⟩ := h
  exact unlink_maxSize d id

/-- **A removed node.** Its neighbours become neighbours of each other. -/
theorem remove_split (h : IsChain d (xs ++ id :: ys)) (hr : remove d id = .ok d') : IsChain d' (xs ++ ys) := by
  simp only [remove, require_bind, usub_bind, pure_ok] at hr
  obtain ⟨-, -, rfl⟩ := hr
  have hu := unlink_unlinked h
  have hnodup := List.nodup_cons.1 (List.nodup_middle.1 h.nodup)
  have hprev : xs.getLastD 0 ≠ 0 → xs.getLastD 0 ≠ id :=
    fun h0 e => hnodup.1 (List.mem_append_left _ (e ▸ getLastD_mem h0))
  have hnext : ys.headD 0 ≠ 0 → ys.headD 0 ≠ id :=
    fun h0 e => hnodup.1 (List.mem_append_right _ (e ▸ headD_mem h0))
  refine Unlinked.chain ⟨fun h0 => ?_, fun h0 => ?_, fun a ha h1 h2 => ?_, hu.head, hu.tail⟩ h ?_ ?_
  · rw [← hu.prev h0]
    exact Function.update_of_ne (hprev h0) _ _
  · rw [← hu.next h0]
    exact Function.update_of_ne (hnext h0) _ _
  · rw [← hu.other a ha h1 h2]
    exact Function.update_of_ne ha _ _
  · exact Function.update_self _ _ _
  · rw [← unlink_size d id]

theorem remove_chain (h : IsChain d ids) (hr : remove d id = .ok d') :
    ∃ xs ys, ids = xs ++ id :: ys ∧ IsChain d' (xs ++ ys) := by
  have hc : contains d id = true := by
    simp only [remove, require_bind] at hr
    exact hr.1
  obtain ⟨xs, ys, rfl⟩ := List.append_of_mem ((h.contains_iff id).1 hc)
  exact ⟨xs, ys, rfl, remove_split h hr⟩

/-- the nodes that stay when one is taken out -/
theorem IsChain.mem_remove (h : IsChain d (xs ++ id :: ys)) (a : Address) :
    a ∈ xs ++ ys ↔ a ∈ xs ++ id :: ys ∧ a ≠ id := by
  have hid : id ∉ xs ++ ys := (List.nodup_cons.1 (List.nodup_middle.1 h.nodup)).1
  constructor
  · intro ha
    refine ⟨?_, fun e => hid (e ▸ ha)⟩
    simp only [List.mem_append, List.mem_cons] at ha ⊢
    tauto
  · rintro ⟨ha, hne⟩
    simp only [List.mem_append, List.mem_cons] at ha ⊢
    tauto

/-- a node that is moved leaves its place and gets the one of its new ratio -/
theorem reInsert_chain (h : IsChain d ids) (hr : reInsert d nicr id NICR prevId nextId = .ok d') :
    ∃ xs ys p n us vs, ids = xs ++ id :: ys ∧ 0 < NICR ∧ Position (xs ++ ys) nicr NICR p n us vs ∧
      IsChain d' (us ++ id :: vs) := by
  simp only [reInsert, require_bind] at hr
  obtain ⟨-, hN, hr⟩ := hr
  obtain ⟨d₁, h1, hr⟩ := bind_ok.1 hr
  obtain ⟨xs, ys, rfl, hc⟩ := remove_chain h h1
  obtain ⟨-, -, -, p, n, us, vs, hpos, hc'⟩ := insert_chain hc hr
  exact ⟨xs, ys, p, n, us, vs, rfl, hN, hpos, hc'⟩

/-! ## Order -/

section Order

variable {rate : Address → ℕ}

/-- no node has a larger ratio than one before it -/
def Descending (rate : Address → ℕ) (ids : List Address) : Prop := ids.Pairwise fun a b => rate b ≤ rate a

/-- a node at the position of its ratio keeps the order -/
theorem Position.descending (hpos : Position ids nicr NICR prevId nextId xs ys) (hrate : ∀ a ∈ ids, nicr a = .ok (rate a))
    (h : Descending rate ids) (hid : rate id = NICR) : Descending rate (xs ++ id :: ys) := by
  obtain rfl := hpos.split
  obtain ⟨hxs, hys, hxy⟩ := List.pairwise_append.1 h
  -- everything before is at least the last one before, everything after at most the first one after
  have habove : ∀ x ∈ xs, NICR ≤ rate x := by
    rcases xs.eq_nil_or_concat with rfl | ⟨us, u, rfl⟩
    · simp
    simp only [List.concat_eq_append] at hpos hrate hxs ⊢
    obtain ⟨r, hr, hle⟩ := hpos.above (by simp)
    rw [hpos.prev, List.getLastD_concat, hrate u (by simp)] at hr
    obtain rfl := Except.ok.inj hr
    intro x hx
    rcases List.mem_append.1 hx with hx | hx
    · exact hle.trans ((List.pairwise_append.1 hxs).2.2 x hx u (by simp))
    · rw [List.mem_singleton.1 hx]
      exact hle
  have hbelow : ∀ y ∈ ys, rate y ≤ NICR := by
    cases ys with
    | nil => simp
    | cons v vs =>
      obtain ⟨r, hr, hle⟩ := hpos.below (by simp)
      rw [hpos.next, List.headD_cons, hrate v (by simp)] at hr
      obtain rfl := Except.ok.inj hr
      intro y hy
      rcases List.mem_cons.1 hy with rfl | hy
      · exact hle
      · exact ((List.pairwise_cons.1 hys).1 y hy).trans hle
  refine List.pairwise_append.2 ⟨hxs, List.pairwise_cons.2 ⟨fun y hy => ?_, hys⟩, fun x hx y hy => ?_⟩
  · rw [hid]
    exact hbelow y hy
  · rcases List.mem_cons.1 hy with rfl | hy
    · rw [hid]
      exact habove x hx
    · exact hxy x hx y hy

/-- the order without one node -/
theorem Descending.remove (h : Descending rate (xs ++ id :: ys)) : Descending rate (xs ++ ys) :=
  h.sublist (List.Sublist.append_left (List.sublist_cons_self id ys) xs)

theorem Descending.congr {rate' : Address → ℕ} (h : Descending rate ids) (hrate : ∀ a ∈ ids, rate' a = rate a) :
    Descending rate' ids :=
  List.Pairwise.imp_of_mem (fun ha hb hab => by rw [hrate _ ha, hrate _ hb]; exact hab) h

/-- two neighbours are in order -/
theorem IsChain.next_le (h : IsChain d ids) (hd : Descending rate ids) {prev next : Address}
    (hprev : contains d prev = true) (hnext : getNext d prev = next) (h0 : next ≠ 0) :
    prev ∈ ids ∧ next ∈ ids ∧ rate next ≤ rate prev := by
  obtain ⟨xs, ys, rfl⟩ := List.append_of_mem ((h.contains_iff prev).1 hprev)
  rw [h.getNext_eq] at hnext
  obtain ⟨zs, rfl⟩ : ∃ zs, ys = next :: zs := by
    cases ys with
    | nil => exact absurd hnext.symm h0
    | cons v vs => exact ⟨vs, by rw [← hnext]; rfl⟩
  refine ⟨by simp, by simp, ?_⟩
  exact (List.pairwise_cons.1 (List.pairwise_append.1 hd).2.1).1 next (by simp)

end Order

end SimContracts.SortedTroves
