import BitRev.Pieces.Bitfield

/-!
# How many peers have each piece

`Availability` (`picker.rs`): one saturating `u16` counter a piece, changed by what each peer says
it has.
-/

namespace BitRev

/-- How many of the connected peers have each piece, by what they said. -/
structure Availability where
  counts : List Nat

namespace Availability

def new (pieceCount : Nat) : Availability := ⟨List.replicate pieceCount 0⟩

section

variable (a : Availability)

def pieceCount : Nat := a.counts.length

def count (index : Nat) : Nat := a.counts[index]?.getD 0

/-- The largest `u16`. -/
def maxCount : Nat := 2 ^ 16 - 1

def saturatingInc (c : Nat) : Nat := min (c + 1) maxCount

def saturatingDec (c : Nat) : Nat := c - 1

/-- A peer with these pieces comes. -/
def addBitfield (b : Bitfield) : Availability :=
  ⟨a.counts.mapIdx fun index slot => if b.hasPiece index then saturatingInc slot else slot⟩

/-- A peer with these pieces goes. -/
def removeBitfield (b : Bitfield) : Availability :=
  ⟨a.counts.mapIdx fun index slot => if b.hasPiece index then saturatingDec slot else slot⟩

/-- A peer gets one more piece. -/
def addHave (index : Nat) : Availability :=
  ⟨a.counts.modify index saturatingInc⟩

/-- A bitfield takes the place of all that the peer said before. -/
def applyPeerBitfield (previous next : Bitfield) : Availability :=
  (a.removeBitfield previous).addBitfield next

/-- A piece that the peer is known to have is not counted again. -/
def applyPeerHave (bitfield : Bitfield) (index : Nat) : Availability × Bitfield :=
  if bitfield.hasPiece index then (a, bitfield) else (a.addHave index, bitfield.setPiece index)

end

variable (a : Availability) (b : Bitfield) (i j : Nat)

@[simp] lemma pieceCount_new : (new i).pieceCount = i := List.length_replicate

@[simp] lemma pieceCount_addBitfield : (a.addBitfield b).pieceCount = a.pieceCount :=
  List.length_mapIdx

@[simp] lemma pieceCount_removeBitfield : (a.removeBitfield b).pieceCount = a.pieceCount :=
  List.length_mapIdx

@[simp] lemma pieceCount_addHave : (a.addHave i).pieceCount = a.pieceCount :=
  List.length_modify _ _ _

@[simp] lemma pieceCount_applyPeerBitfield (next : Bitfield) :
    (a.applyPeerBitfield b next).pieceCount = a.pieceCount := by
  simp [applyPeerBitfield]

@[simp] lemma pieceCount_applyPeerHave : (a.applyPeerHave b i).1.pieceCount = a.pieceCount := by
  unfold applyPeerHave
  split <;> simp

@[simp] lemma count_new : (new i).count j = 0 := by
  rw [count, new, List.getElem?_replicate]
  split <;> rfl

/-- Past the last piece nothing is counted. -/
lemma count_of_le (h : a.pieceCount ≤ i) : a.count i = 0 := by
  rw [count, List.getElem?_eq_none h]
  rfl

lemma getElem?_counts (h : i < a.pieceCount) : a.counts[i]? = some (a.count i) := by
  rw [count, List.getElem?_eq_getElem h]
  rfl

/-- Each piece of the peer counts one more, up to the limit. -/
lemma count_addBitfield (h : i < a.pieceCount) :
    (a.addBitfield b).count i = if b.hasPiece i then saturatingInc (a.count i) else a.count i := by
  rw [count, addBitfield, List.getElem?_mapIdx, getElem?_counts a i h]
  rfl

/-- Each piece of the peer counts one less. -/
lemma count_removeBitfield (h : i < a.pieceCount) :
    (a.removeBitfield b).count i =
      if b.hasPiece i then saturatingDec (a.count i) else a.count i := by
  rw [count, removeBitfield, List.getElem?_mapIdx, getElem?_counts a i h]
  rfl

/-- The piece that was announced counts one more, and no other. -/
lemma count_addHave (h : j < a.pieceCount) :
    (a.addHave i).count j = if i = j then saturatingInc (a.count j) else a.count j := by
  rw [count, addHave, List.getElem?_modify, getElem?_counts a j h]
  rfl

end Availability

end BitRev
