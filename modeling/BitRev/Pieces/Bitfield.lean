import BitRev.Pieces.Table

/-!
# Bitfields

`Bitfield` (`bitfield.rs`): the bytes of a `Bitfield` message, the first piece in the highest bit
of the first byte. A piece past the last byte is not in the bitfield, and setting it does nothing.

* `hasPiece_setPiece`: setting a piece adds that piece, if there is a byte for it, and no other.
* `hasPiece_filled`, `hasPiece_ourBits`: what the bitfields this client builds hold.
* `isEmpty_iff`: an empty bitfield is one that holds no piece.
-/

namespace BitRev

open List Option

structure Bitfield where
  bytes : Bytes

namespace Bitfield

def withPieceCount (count : Nat) : Bitfield := ⟨List.replicate ((count + 7) / 8) 0⟩

def hasPiece (b : Bitfield) (index : Nat) : Bool :=
  match b.bytes[index / 8]? with
  | none => false
  | some byte => byte.toNat.testBit (7 - index % 8)

def setPiece (b : Bitfield) (index : Nat) : Bitfield :=
  ⟨b.bytes.modify (index / 8) fun byte => UInt8.ofNat (byte.toNat ||| 2 ^ (7 - index % 8))⟩

def filled (pieceCount : Nat) : Bitfield :=
  (List.range pieceCount).foldl setPiece (withPieceCount pieceCount)

def isEmpty (b : Bitfield) : Bool := b.bytes.all (· = 0)

variable (b : Bitfield) (i j : Nat)

@[simp] lemma length_setPiece : (b.setPiece i).bytes.length = b.bytes.length := by
  simp [setPiece]

@[simp] lemma length_withPieceCount : (withPieceCount i).bytes.length = (i + 7) / 8 := by
  simp [withPieceCount]

@[simp] lemma hasPiece_withPieceCount : (withPieceCount i).hasPiece j = false := by
  unfold hasPiece withPieceCount
  rw [getElem?_replicate]
  split
  · rfl
  · rename_i byte h
    split_ifs at h
    cases h
    exact Nat.zero_testBit _

@[simp] lemma hasPiece_nil : (⟨[]⟩ : Bitfield).hasPiece i = false := rfl

lemma hasPiece_of_length_le (h : b.bytes.length ≤ i / 8) : b.hasPiece i = false := by
  rw [hasPiece, getElem?_eq_none h]

lemma toNat_setBit (byte : UInt8) {k : Nat} (hk : k < 8) :
    (UInt8.ofNat (byte.toNat ||| 2 ^ k)).toNat = byte.toNat ||| 2 ^ k :=
  UInt8.toNat_ofNat_of_lt
    (Nat.or_lt_two_pow (n := 8) byte.toNat_lt (Nat.pow_lt_pow_right (by decide) hk))

lemma hasPiece_setPiece :
    (b.setPiece i).hasPiece j = (b.hasPiece j || decide (i = j ∧ i / 8 < b.bytes.length)) := by
  unfold hasPiece setPiece
  rw [getElem?_modify]
  cases hj : b.bytes[j / 8]? with
  | none =>
    have hlen := getElem?_eq_none_iff.1 hj
    simp only [Option.map_eq_map, map_none, Bool.false_or]
    refine (decide_eq_false ?_).symm
    rintro ⟨rfl, hlt⟩
    exact absurd hlt (not_lt.2 hlen)
  | some byte =>
    obtain ⟨hlen, -⟩ := List.getElem?_eq_some_iff.1 hj
    simp only [Option.map_eq_map, map_some]
    by_cases hbyte : i / 8 = j / 8
    · rw [if_pos hbyte, toNat_setBit byte (by omega), Nat.testBit_or, Nat.testBit_two_pow]
      congr 1
      -- within one byte the bit says which piece it is
      exact decide_eq_decide.2 ⟨fun h => ⟨by omega, by omega⟩, fun h => by rw [h.1]⟩
    · rw [if_neg hbyte, decide_eq_false (fun h => hbyte (by rw [h.1])), Bool.or_false]

/-- Setting pieces that all have a byte adds these pieces and no other. -/
lemma hasPiece_foldl_setPiece (l : List Nat) (h : ∀ i ∈ l, i / 8 < b.bytes.length) :
    (l.foldl setPiece b).hasPiece j = (b.hasPiece j || decide (j ∈ l)) := by
  induction l generalizing b with
  | nil => simp
  | cons i l ih =>
    have hi := h i mem_cons_self
    rw [foldl_cons, ih _ fun k hk => by
      rw [length_setPiece]
      exact h k (mem_cons_of_mem i hk), hasPiece_setPiece, Bool.or_assoc]
    simp only [hi, and_true, mem_cons, eq_comm (a := i), Bool.decide_or]

lemma length_foldl_setPiece (l : List Nat) :
    (l.foldl setPiece b).bytes.length = b.bytes.length := by
  induction l generalizing b with
  | nil => rfl
  | cons i l ih => rw [foldl_cons, ih, length_setPiece]

@[simp] lemma hasPiece_filled : (filled i).hasPiece j = decide (j < i) := by
  have hbyte : ∀ k ∈ range i, k / 8 < (withPieceCount i).bytes.length := by
    intro k hk
    rw [mem_range] at hk
    rw [length_withPieceCount]
    omega
  rw [filled, hasPiece_foldl_setPiece _ _ _ hbyte, hasPiece_withPieceCount, Bool.false_or]
  simp only [mem_range]

lemma isEmpty_iff : b.isEmpty ↔ ∀ i, b.hasPiece i = false := by
  simp only [isEmpty, List.all_eq_true, decide_eq_true_eq]
  constructor
  · intro h i
    unfold hasPiece
    split
    · rfl
    · rename_i byte hbyte
      rw [h byte (mem_of_getElem? hbyte)]
      exact Nat.zero_testBit _
  · intro h byte hbyte
    obtain ⟨k, hk⟩ := mem_iff_getElem?.1 hbyte
    -- the bits of byte `k` are the pieces from `8 * k` on
    have hbits : ∀ n < 8, byte.toNat.testBit n = false := by
      intro n hn
      have hpiece := h (8 * k + (7 - n))
      rw [hasPiece, show (8 * k + (7 - n)) / 8 = k by omega, hk] at hpiece
      rwa [show 7 - (8 * k + (7 - n)) % 8 = n by omega] at hpiece
    refine UInt8.toNat_inj.1 (Nat.eq_of_testBit_eq fun n => ?_)
    rw [UInt8.toNat_zero, Nat.zero_testBit]
    rcases Nat.lt_or_ge n 8 with hn | hn
    · exact hbits n hn
    · exact Nat.testBit_lt_two_pow
        (byte.toNat_lt.trans_le (Nat.pow_le_pow_right (by decide) hn))

end Bitfield

namespace TorrentDownloadedState

/-- The bytes of `our_bitfield`: one bit for each piece that is downloaded. -/
def ourBits (t : TorrentDownloadedState) : Bitfield :=
  t.pieces.zipIdx.foldl (fun b (pw, i) => if pw.downloaded then b.setPiece i else b)
    (.withPieceCount t.pieces.length)

variable (t : TorrentDownloadedState)

/-- The pieces the loop of `ourBits` sets. -/
lemma ourBits_eq :
    t.ourBits = ((t.pieces.zipIdx.filter (·.1.downloaded)).map (·.2)).foldl Bitfield.setPiece
      (.withPieceCount t.pieces.length) := by
  rw [foldl_map, foldl_filter]
  rfl

lemma length_ourBits : t.ourBits.bytes.length = (t.pieceCount + 7) / 8 := by
  rw [ourBits_eq, Bitfield.length_foldl_setPiece, Bitfield.length_withPieceCount]
  rfl

lemma hasPiece_ourBits (i : Nat) : t.ourBits.hasPiece i = t.hasPiece i := by
  have hmem : ∀ k, k ∈ (t.pieces.zipIdx.filter (·.1.downloaded)).map (·.2) ↔
      t.hasPiece k := by
    intro k
    simp only [List.mem_map, mem_filter, Prod.exists, mem_zipIdx_iff_getElem?, hasPiece]
    constructor
    · rintro ⟨pw, k, ⟨hpw, hd⟩, rfl⟩
      rw [hpw]
      exact hd
    · intro h
      cases hpw : t.pieces[k]? with
      | none => simp [hpw] at h
      | some pw => exact ⟨pw, k, ⟨hpw, by simpa [hpw] using h⟩, rfl⟩
  rw [ourBits_eq, Bitfield.hasPiece_foldl_setPiece, Bitfield.hasPiece_withPieceCount, Bool.false_or]
  · rw [Bool.eq_iff_iff, decide_eq_true_iff]
    exact hmem i
  · intro k hk
    have hlt : k < t.pieces.length := by
      by_contra hge
      have h := (hmem k).1 hk
      rw [hasPiece, getElem?_eq_none (not_lt.1 hge)] at h
      cases h
    rw [Bitfield.length_withPieceCount]
    omega

end TorrentDownloadedState

end BitRev
