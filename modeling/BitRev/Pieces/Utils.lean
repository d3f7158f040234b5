import BitRev.Metainfo.Torrent

/-!
# Pieces, blocks and files

`utils.rs`: the bounds of a piece in the torrent's data and the files it overlaps. The machine
arithmetic is that of a release build: `usize` wraps.
-/

namespace BitRev

def asUsize (x : Int) : Nat := (x % 2 ^ 64).toNat

def addUsize (a b : Nat) : Nat := (a + b) % 2 ^ 64

def mulUsize (a b : Nat) : Nat := a * b % 2 ^ 64

def subUsize (a b : Nat) : Nat := (a + 2 ^ 64 - b) % 2 ^ 64

/-- `saturating_add` of two `u32`. -/
def satAddU32 (a b : Nat) : Nat := min (a + b) (2 ^ 32 - 1)

structure PieceFileMapping where
  fileIndex : Nat
  fileOffset : Nat
  length : Nat

namespace Torrent

def calculateBoundsForPiece (t : Torrent) (index : Nat) : Nat × Nat :=
  let start := mulUsize index (asUsize t.pieceLength)
  let stop := addUsize start (asUsize t.pieceLength)
  if stop > asUsize t.length then (start, asUsize t.length) else (start, stop)

def calculatePieceSize (t : Torrent) (index : Nat) : Nat :=
  let (start, stop) := t.calculateBoundsForPiece index
  subUsize stop start

def mapPieceToFiles (t : Torrent) (pieceIndex : Nat) : List PieceFileMapping :=
  let (pieceStart, pieceStop) := t.calculateBoundsForPiece pieceIndex
  t.files.zipIdx.filterMap fun (file, fileIndex) =>
    let fileStart := asUsize file.offset
    let fileStop := addUsize fileStart (asUsize file.length)
    if pieceStart < fileStop ∧ pieceStop > fileStart then
      let overlapStart := max pieceStart fileStart
      let overlapStop := min pieceStop fileStop
      some ⟨fileIndex, overlapStart - fileStart, overlapStop - overlapStart⟩
    else none

end Torrent

end BitRev
