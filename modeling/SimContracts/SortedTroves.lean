/-
The list of troves ordered by nominal collateral ratio (`contracts/SortedTroves.sol`): a doubly linked list in a
mapping from addresses to nodes, with the zero address for "none".

The ratios are not stored. Every comparison asks `troveManager.getNominalICR`, which is the argument `nicr` here; it can
revert. The two searches walk the list from a hint; on a list of `size` nodes they end after at most `size + 1` rounds,
and a walk that takes longer (on a list that is not a chain) runs out of gas.
-/
import SimContracts.Base

namespace SimContracts.SortedTroves

open Solidity

/-! ## State -/

structure Node where
  exists_ : Bool
  /-- next node (smaller NICR) -/
  nextId : Address
  /-- previous node (larger NICR) -/
  prevId : Address
deriving DecidableEq

structure Data where
  /-- the node with the largest NICR -/
  head : Address
  /-- the node with the smallest NICR -/
  tail : Address
  maxSize : ℕ
  size : ℕ
  nodes : Address → Node

def Node.empty : Node := ⟨false, 0, 0⟩

/-- the list after `setParams` -/
def init (maxSize : ℕ) : Data := ⟨0, 0, maxSize, 0, fun _ => .empty⟩

variable (d : Data)

def contains (id : Address) : Bool := (d.nodes id).exists_
def isFull : Bool := d.size = d.maxSize
def isEmpty : Bool := d.size = 0
def getSize : ℕ := d.size
def getFirst : Address := d.head
def getLast : Address := d.tail
def getNext (id : Address) : Address := (d.nodes id).nextId
def getPrev (id : Address) : Address := (d.nodes id).prevId

/-- `data.nodes[id].nextId = next` -/
def setNext (id next : Address) : Data :=
  { d with nodes := Function.update d.nodes id { d.nodes id with nextId := next } }

/-- `data.nodes[id].prevId = prev` -/
def setPrev (id prev : Address) : Data :=
  { d with nodes := Function.update d.nodes id { d.nodes id with prevId := prev } }

/-! ## Insert position -/

variable (nicr : Address → Res ℕ)

def validInsertPosition (NICR : ℕ) (prevId nextId : Address) : Res Bool :=
  if prevId = 0 ∧ nextId = 0 then .ok (isEmpty d)
  else if prevId = 0 then
    if d.head = nextId then do pure (decide ((← nicr nextId) ≤ NICR)) else .ok false
  else if nextId = 0 then
    if d.tail = prevId then do pure (decide (NICR ≤ (← nicr prevId))) else .ok false
  else if (d.nodes prevId).nextId = nextId then do
    if NICR ≤ (← nicr prevId) then pure (decide ((← nicr nextId) ≤ NICR)) else pure false
  else .ok false

/-- the loop of `_descendList` -/
def descendLoop (NICR : ℕ) : ℕ → Address → Address → Res (Address × Address)
  | 0, _, _ => .error .outOfGas
  | rounds + 1, prevId, nextId =>
    if prevId = 0 then .ok (prevId, nextId)
    else do
      if ← validInsertPosition d nicr NICR prevId nextId then pure (prevId, nextId)
      else
        let prevId := getNext d prevId
        descendLoop NICR rounds prevId (getNext d prevId)

/-- the position before the head -/
def fitsBeforeHead (NICR : ℕ) (startId : Address) : Res Bool :=
  if d.head = startId then do pure (decide ((← nicr startId) ≤ NICR)) else .ok false

def descendList (NICR : ℕ) (startId : Address) : Res (Address × Address) := do
  let first ← fitsBeforeHead d nicr NICR startId
  if first then pure (0, startId) else descendLoop d nicr NICR (d.size + 2) startId (getNext d startId)

/-- the loop of `_ascendList` -/
def ascendLoop (NICR : ℕ) : ℕ → Address → Address → Res (Address × Address)
  | 0, _, _ => .error .outOfGas
  | rounds + 1, prevId, nextId =>
    if nextId = 0 then .ok (prevId, nextId)
    else do
      if ← validInsertPosition d nicr NICR prevId nextId then pure (prevId, nextId)
      else
        let nextId := getPrev d nextId
        ascendLoop NICR rounds (getPrev d nextId) nextId

/-- the position after the tail -/
def fitsAfterTail (NICR : ℕ) (startId : Address) : Res Bool :=
  if d.tail = startId then do pure (decide (NICR ≤ (← nicr startId))) else .ok false

def ascendList (NICR : ℕ) (startId : Address) : Res (Address × Address) := do
  let last ← fitsAfterTail d nicr NICR startId
  if last then pure (startId, 0) else ascendLoop d nicr NICR (d.size + 2) (getPrev d startId) startId

/-- a hint that does not exist any more or is on the wrong side counts as none -/
def checkedHint (id : Address) (wrongSide : ℕ → Bool) : Res Address :=
  if id = 0 then .ok 0
  else if contains d id = false then .ok 0
  else do if wrongSide (← nicr id) then pure 0 else pure id

def findInsertPosition (NICR : ℕ) (prevId nextId : Address) : Res (Address × Address) := do
  let prevId ← checkedHint d nicr prevId fun r => r < NICR
  let nextId ← checkedHint d nicr nextId fun r => NICR < r
  if prevId = 0 ∧ nextId = 0 then descendList d nicr NICR d.head
  else if prevId = 0 then ascendList d nicr NICR nextId
  else descendList d nicr NICR prevId

/-! ## Operations -/

/-- links a new node between two neighbours -/
def link (id prevId nextId : Address) : Data :=
  let d := { d with nodes := Function.update d.nodes id { d.nodes id with exists_ := true } }
  if prevId = 0 ∧ nextId = 0 then { d with head := id, tail := id }
  else if prevId = 0 then { setPrev (setNext d id d.head) d.head id with head := id }
  else if nextId = 0 then { setNext (setPrev d id d.tail) d.tail id with tail := id }
  else setPrev (setNext (setPrev (setNext d id nextId) id prevId) prevId id) nextId id

/-- the hints if they are a valid position, else the position found from them -/
def insertPosition (NICR : ℕ) (prevId nextId : Address) : Res (Address × Address) := do
  if ← validInsertPosition d nicr NICR prevId nextId then pure (prevId, nextId)
  else findInsertPosition d nicr NICR prevId nextId

def insert (id : Address) (NICR : ℕ) (prevId nextId : Address) : Res Data := do
  require (isFull d = false) "SortedTroves: List is full"
  require (contains d id = false) "SortedTroves: List already contains the node"
  require (id ≠ 0) "SortedTroves: Id cannot be zero"
  require (0 < NICR) "SortedTroves: NICR must be positive"
  let (prevId, nextId) ← insertPosition d nicr NICR prevId nextId
  let size ← uadd d.size 1
  pure { link d id prevId nextId with size }

/-- takes a node out of its neighbours' links -/
def unlink (id : Address) : Data :=
  if 1 < d.size then
    if id = d.head then
      let head := getNext d id
      { setPrev d head 0 with head }
    else if id = d.tail then
      let tail := getPrev d id
      { setNext d tail 0 with tail }
    else
      let d := setNext d (getPrev d id) (getNext d id)
      setPrev d (getNext d id) (getPrev d id)
  else { d with head := 0, tail := 0 }

def remove (id : Address) : Res Data := do
  require (contains d id = true) "SortedTroves: List does not contain the id"
  let d := unlink d id
  let size ← usub d.size 1
  pure { d with nodes := Function.update d.nodes id .empty, size }

def reInsert (id : Address) (newNICR : ℕ) (prevId nextId : Address) : Res Data := do
  require (contains d id = true) "SortedTroves: List does not contain the id"
  require (0 < newNICR) "SortedTroves: NICR must be positive"
  let d ← remove d id
  insert d nicr id newNICR prevId nextId

end SimContracts.SortedTroves
