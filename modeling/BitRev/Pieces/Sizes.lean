import BitRev.Pieces.Table

/-!
# The sizes of the pieces

The lengths of a metainfo become the length and the file offsets of a `Torrent`, and the sizes of
its pieces become the `PieceWork` list a session downloads. `validate_torrent_file` looks at the
piece length, at the length of `pieces` modulo 20 and at the paths; the lengths, and how many
hashes there are, reach the arithmetic as they come.

`Info.Consistent` is what the numbers of a metainfo must satisfy for that arithmetic to be exact:
no running sum leaves `i64`, the hashes cover the total with at most one empty piece after it, and
a piece fits in `u32`.
-/

namespace BitRev

open List Option

/-- The values of an `i64`. -/
def InI64 (x : Int) : Prop := -2 ^ 63 ≤ x ∧ x < 2 ^ 63

instance : DecidablePred InI64 := fun x => inferInstanceAs (Decidable (-2 ^ 63 ≤ x ∧ x < 2 ^ 63))

lemma addI64_mem (a b : Int) : InI64 (addI64 a b) := by
  have hl := Int.le_bmod (x := a + b) (m := 2 ^ 64) (by decide)
  have hu := Int.bmod_lt (x := a + b) (m := 2 ^ 64) (by decide)
  simp only [InI64, addI64]
  omega

lemma addI64_eq_iff {a b : Int} : addI64 a b = a + b ↔ InI64 (a + b) := by
  constructor
  · intro h
    exact h ▸ addI64_mem a b
  · intro ⟨hl, hu⟩
    exact Int.bmod_eq_of_le (by omega) (by omega)

/-- The running sums of `i64` additions are the exact ones when none of those overflows. -/
lemma scanl_addI64_eq_iff : ∀ (ls : List Int) {total : Int}, InI64 total →
    (ls.scanl addI64 total = ls.scanl (· + ·) total ↔ ∀ x ∈ ls.scanl (· + ·) total, InI64 x)
  | [], total, h => by simp [h]
  | l :: ls, total, h => by
    simp only [scanl_cons, cons.injEq, true_and, mem_cons, forall_eq_or_imp, h]
    constructor
    · intro he
      -- the heads of the two rests are the two sums
      have hs : addI64 total l = total + l := by
        cases ls <;> simp only [scanl_nil, scanl_cons, cons.injEq] at he
        · exact he.1
        · exact he.1
      rw [hs] at he
      exact (scanl_addI64_eq_iff ls (addI64_eq_iff.1 hs)).1 he
    · intro hx
      have hs : InI64 (total + l) := hx _ (by cases ls <;> simp)
      rw [addI64_eq_iff.2 hs]
      exact (scanl_addI64_eq_iff ls hs).2 hx

namespace Metainfo.Info

def lengths (info : Info) : List Int :=
  match info.files, info.length with
  | some files, _ => files.map File.length
  | none, some length => [length]
  | none, none => []

/-- The numbers of a decoded `info` dict are `i64`s. -/
structure Typed (info : Info) : Prop where
  pieceLength : InI64 info.pieceLength
  lengths : ∀ l ∈ info.lengths, InI64 l

/-- The numbers of a metainfo fit together. -/
structure Consistent (info : Info) : Prop where
  sums : ∀ x ∈ info.lengths.scanl (· + ·) 0, InI64 x
  nonneg : 0 ≤ info.lengths.sum
  covered : info.lengths.sum ≤ (info.pieces.length / 20 : Nat) * info.pieceLength
  tight : (info.pieces.length / 20 : Nat) * info.pieceLength ≤ info.lengths.sum + info.pieceLength
  small : min info.pieceLength info.lengths.sum < 2 ^ 32

end Metainfo.Info

namespace Torrent

open Metainfo (File Info TorrentFile TorrentMeta validateTorrentFile)

/-- The size of a piece is computed without overflow and can be stored in a `u32`. -/
structure SizeOk (t : Torrent) (index : Nat) : Prop where
  mul : index * asUsize t.pieceLength < 2 ^ 64
  add : index * asUsize t.pieceLength + asUsize t.pieceLength < 2 ^ 64
  sub : (t.calculateBoundsForPiece index).1 ≤ (t.calculateBoundsForPiece index).2
  atMost : (t.calculatePieceSize index : Int) ≤ t.pieceLength
  fits : t.calculatePieceSize index < 2 ^ 32

/-- The offsets and the length are the exact sums of `lengths`, every piece size is computed
without overflow, and the work of the pieces has the real sizes. -/
structure Sized (t : Torrent) (lengths : List Int) : Prop where
  laid : t.files.map TorrentFileInfo.offset ++ [t.length] = lengths.scanl (· + ·) 0
  sizes : ∀ index < t.pieceHashes.length, t.SizeOk index
  real : ∀ (index : Nat) (w : PieceWorkState), t.piecesOfWork[index]? = some w →
    (w.pieceWork.length : Int) = min t.pieceLength (t.length - index * t.pieceLength)
  sum : ((t.piecesOfWork.map (·.pieceWork.length)).sum : Nat) = t.length

/-! ## The sums -/

lemma layFiles_offset : ∀ (total : Int) (files : List File),
    (layFiles total files).1.map TorrentFileInfo.offset ++ [(layFiles total files).2] =
      (files.map File.length).scanl addI64 total
  | _, [] => by simp [layFiles]
  | total, file :: files => by
    simp only [layFiles, map_cons, cons_append, scanl_cons,
      layFiles_offset (addI64 total file.length) files]

lemma new_laid {m : TorrentMeta} {t : Torrent} (h : new m = some t)
    (hl : ∀ l ∈ m.torrentFile.info.lengths, InI64 l) :
    t.pieceHashes = m.pieceHashes ∧ t.pieceLength = m.torrentFile.info.pieceLength ∧
      t.files.map TorrentFileInfo.offset ++ [t.length] =
        m.torrentFile.info.lengths.scanl addI64 0 := by
  unfold new at h
  obtain ⟨layout, hlay, rfl⟩ := map_eq_some_iff.1 h
  refine ⟨rfl, rfl, ?_⟩
  unfold Info.lengths at hl ⊢
  cases hf : m.torrentFile.info.files with
  | some files =>
    simp only [hf, some.injEq] at hlay
    simp only [← hlay, layFiles_offset]
  | none =>
    cases hlen : m.torrentFile.info.length <;> simp only [hf, hlen] at hlay
    · cases hlay
    · rename_i length
      simp only [some.injEq] at hlay
      -- a single file is not summed
      have hz : addI64 0 length = 0 + length :=
        addI64_eq_iff.2 (by simpa using hl length (by simp [hf, hlen]))
      simp [← hlay, hz]

lemma scanl_add_getLast (ls : List Int) (total : Int) :
    (ls.scanl (· + ·) total).getLast? = some (total + ls.sum) := by
  induction ls generalizing total with
  | nil => simp
  | cons l ls ih =>
    rw [scanl_cons, getLast?_cons, ih, sum_cons, getD_some, Int.add_assoc]

/-! ## The pieces of a torrent whose numbers are natural -/

section Pieces

variable {t : Torrent} {p L : Nat} (hp : t.pieceLength = p) (hL : t.length = L)
  (hp63 : p < 2 ^ 63) (hL63 : L < 2 ^ 63)

include hp hL hp63 hL63

lemma bounds_eq {index : Nat} (h : index * p + p < 2 ^ 64) :
    t.calculateBoundsForPiece index = (index * p, min (index * p + p) L) := by
  have hap : asUsize t.pieceLength = p := by rw [hp, asUsize]; omega
  have haL : asUsize t.length = L := by rw [hL, asUsize]; omega
  simp only [calculateBoundsForPiece, hap, haL, mulUsize, addUsize]
  rw [Nat.mod_eq_of_lt (show index * p < 2 ^ 64 by omega), Nat.mod_eq_of_lt h]
  split <;> simp only [Prod.mk.injEq, true_and] <;> omega

lemma size_eq {index : Nat} (h : index * p ≤ L) :
    t.calculatePieceSize index = min p (L - index * p) := by
  simp only [calculatePieceSize, bounds_eq hp hL hp63 hL63 (show index * p + p < 2 ^ 64 by omega),
    subUsize]
  omega

end Pieces

/-- The sizes of `n` pieces of `p` bytes cut from `L` bytes. -/
lemma sum_sizes (p L : Nat) : ∀ n : Nat,
    ((List.range n).map fun i => min p (L - i * p)).sum = min (n * p) L
  | 0 => by simp
  | n + 1 => by
    rw [range_succ, map_append, sum_append, sum_sizes p L n, Nat.succ_mul]
    simp only [map_cons, map_nil, sum_cons, sum_nil]
    omega

lemma piecesOfWork_length (t : Torrent) :
    t.piecesOfWork.map (·.pieceWork.length) =
      (List.range t.pieceHashes.length).map fun i => t.calculatePieceSize i % 2 ^ 32 := by
  refine ext_getElem? fun i => ?_
  simp only [piecesOfWork, getElem?_map, getElem?_mapIdx]
  by_cases hi : i < t.pieceHashes.length <;> simp [hi]

section Pieces

variable {t : Torrent} {p L : Nat} (hp : t.pieceLength = p) (hL : t.length = L) (h0 : 0 < p)
  (hp63 : p < 2 ^ 63) (hL63 : L < 2 ^ 63)

include hp hL h0 hp63 hL63

/-- A piece that starts within the data and whose size fits. -/
lemma sizeOk_of_le {index : Nat} (h : index * p ≤ L) (hs : min p L < 2 ^ 32) : t.SizeOk index := by
  have hsize := size_eq hp hL hp63 hL63 h
  have hap : asUsize t.pieceLength = p := by rw [hp, asUsize]; omega
  refine ⟨?_, ?_, ?_, ?_, ?_⟩
  · rw [hap]; omega
  · rw [hap]; omega
  · rw [bounds_eq hp hL hp63 hL63 (by omega)]
    simp only
    omega
  · rw [hsize, hp]; omega
  · rw [hsize]; omega

/-- If every size is computed without overflow then every piece starts within the data. -/
lemma SizeOk.le {index : Nat} (h : t.SizeOk index) : index * p ≤ L := by
  have hap : asUsize t.pieceLength = p := by rw [hp, asUsize]; omega
  have hadd := h.add
  have hsub := h.sub
  rw [hap] at hadd
  rw [bounds_eq hp hL hp63 hL63 hadd] at hsub
  simp only at hsub
  omega

/-- Cut at pieces that start within the data, the sizes add up to what the pieces cover. -/
lemma sum_piecesOfWork (h : ∀ index < t.pieceHashes.length, t.SizeOk index) :
    (t.piecesOfWork.map (·.pieceWork.length)).sum = min (t.pieceHashes.length * p) L := by
  rw [piecesOfWork_length, ← sum_sizes p L t.pieceHashes.length]
  refine congrArg sum (map_congr_left fun i hi => ?_)
  have hok := h i (mem_range.1 hi)
  rw [Nat.mod_eq_of_lt hok.fits]
  exact size_eq hp hL hp63 hL63 (hok.le hp hL h0 hp63 hL63)

lemma pieces_real (h : ∀ index < t.pieceHashes.length, t.SizeOk index) {index : Nat}
    {w : PieceWorkState} (hw : t.piecesOfWork[index]? = some w) :
    (w.pieceWork.length : Int) = min t.pieceLength (t.length - index * t.pieceLength) := by
  rw [piecesOfWork, getElem?_mapIdx, map_eq_some_iff] at hw
  obtain ⟨hash, hh, rfl⟩ := hw
  have hok := h index (List.getElem?_eq_some_iff.1 hh).1
  have hle := hok.le hp hL h0 hp63 hL63
  simp only
  rw [Nat.mod_eq_of_lt hok.fits, size_eq hp hL hp63 hL63 hle, hp, hL]
  rw [← Int.natCast_mul]
  generalize index * p = start at hle ⊢
  omega

/-- Every size is computed without overflow and they add up to the length, exactly if the pieces
cover the length, the last one starts within it, and a piece fits in `u32`. -/
lemma sizes_iff :
    (∀ index < t.pieceHashes.length, t.SizeOk index) ∧
        (t.piecesOfWork.map (·.pieceWork.length)).sum = L ↔
      L ≤ t.pieceHashes.length * p ∧ t.pieceHashes.length * p ≤ L + p ∧ min p L < 2 ^ 32 := by
  constructor
  · intro ⟨hok, hsum⟩
    rw [sum_piecesOfWork hp hL h0 hp63 hL63 hok] at hsum
    have hcov : L ≤ t.pieceHashes.length * p := by omega
    rcases Nat.eq_zero_or_pos t.pieceHashes.length with hn | hn
    · rw [hn] at hcov ⊢
      omega
    · refine ⟨hcov, ?_, ?_⟩
      · have hlast := (hok (t.pieceHashes.length - 1) (by omega)).le hp hL h0 hp63 hL63
        rw [Nat.sub_mul, Nat.one_mul] at hlast
        omega
      · have hfirst := (hok 0 hn).fits
        rw [size_eq hp hL hp63 hL63 (by omega)] at hfirst
        omega
  · intro ⟨hcov, htight, hsmall⟩
    have hok : ∀ index < t.pieceHashes.length, t.SizeOk index := by
      intro index hi
      have hle : (index + 1) * p ≤ t.pieceHashes.length * p := Nat.mul_le_mul_right p hi
      rw [Nat.succ_mul] at hle
      exact sizeOk_of_le hp hL h0 hp63 hL63 (by omega) hsmall
    refine ⟨hok, ?_⟩
    rw [sum_piecesOfWork hp hL h0 hp63 hL63 hok]
    omega

end Pieces

/-! ## Accepted metainfos -/

lemma new_of_valid {tf : TorrentFile} (h : validateTorrentFile tf = .ok ()) (infoHash : Digest)
    (infoBytes : Bytes) :
    0 < tf.info.pieceLength ∧ ∃ t, new (.fromValidated tf infoHash infoBytes) = some t := by
  unfold validateTorrentFile at h
  split at h
  · cases h
  rename_i hpos
  split at h
  · cases h
  refine ⟨by omega, ?_⟩
  cases hl : tf.info.length <;> cases hf : tf.info.files <;> simp only [hl, hf] at h
  · cases h
  · exact ⟨_, by simp only [new, TorrentMeta.fromValidated, hf]; rfl⟩
  · exact ⟨_, by simp only [new, TorrentMeta.fromValidated, hl, hf]; rfl⟩
  · cases h

lemma length_of_laid {t : Torrent} {lengths : List Int}
    (h : t.files.map TorrentFileInfo.offset ++ [t.length] = lengths.scanl (· + ·) 0) :
    t.length = lengths.sum := by
  have hlast := scanl_add_getLast lengths 0
  rw [← h, getLast?_concat, some.injEq, Int.zero_add] at hlast
  exact hlast

/-- An accepted metainfo gives a torrent, and the arithmetic on its numbers is exact, with the
real piece sizes that add up to its length, exactly if its numbers fit together. -/
theorem validateTorrentFile_sized (tf : TorrentFile) (hv : validateTorrentFile tf = .ok ())
    (ht : tf.info.Typed) (infoHash : Digest) (infoBytes : Bytes) :
    ∃ t, new (.fromValidated tf infoHash infoBytes) = some t ∧
      (t.Sized tf.info.lengths ↔ tf.info.Consistent) := by
  obtain ⟨hpos, t, hn⟩ := new_of_valid hv infoHash infoBytes
  refine ⟨t, hn, ?_⟩
  obtain ⟨hhashes, hpl, hlaid⟩ := new_laid hn ht.lengths
  have hcount : t.pieceHashes.length = tf.info.pieces.length / 20 := by
    simp [hhashes, TorrentMeta.fromValidated, Metainfo.chunkHashes]
  have hsums := scanl_addI64_eq_iff tf.info.lengths (show InI64 0 by decide)
  change t.pieceLength = tf.info.pieceLength at hpl
  change _ = tf.info.lengths.scanl addI64 0 at hlaid
  obtain ⟨p, hp⟩ := Int.eq_ofNat_of_zero_le (show 0 ≤ t.pieceLength by omega)
  have hp63 := ht.pieceLength.2
  constructor
  · intro h
    have hL := length_of_laid h.laid
    have hfit := hsums.1 (hlaid.symm.trans h.laid)
    obtain ⟨L, hL'⟩ : ∃ L : Nat, t.length = L := ⟨_, h.sum.symm⟩
    have hL63 : InI64 tf.info.lengths.sum := by
      refine hfit _ (mem_of_getLast? ?_)
      rw [scanl_add_getLast, Int.zero_add]
    have hsum := h.sum
    rw [hL'] at hsum
    obtain ⟨hcov, htight, hsmall⟩ := (sizes_iff hp hL' (by omega) (by omega)
      (by have := hL63.2; omega)).1 ⟨h.sizes, by exact_mod_cast hsum⟩
    rw [hcount] at hcov htight
    refine ⟨hfit, by omega, ?_, ?_, ?_⟩
    · rw [← hL, ← hpl, hL', hp]; exact_mod_cast hcov
    · rw [← hL, ← hpl, hL', hp]; exact_mod_cast htight
    · rw [← hL, ← hpl, hL', hp]; omega
  · intro h
    have hexact := hlaid.trans (hsums.2 h.sums)
    have hL := length_of_laid hexact
    have hnonneg := h.nonneg
    obtain ⟨L, hL'⟩ := Int.eq_ofNat_of_zero_le (show 0 ≤ t.length by omega)
    have hL63 : InI64 tf.info.lengths.sum := by
      refine h.sums _ (mem_of_getLast? ?_)
      rw [scanl_add_getLast, Int.zero_add]
    have hcov := h.covered
    have htight := h.tight
    have hsmall := h.small
    rw [← hL, ← hpl, hL', hp] at hsmall
    rw [← hL, ← hpl, hL', hp, ← hcount] at hcov htight
    have hL63' : L < 2 ^ 63 := by have := hL63.2; omega
    obtain ⟨hok, hsum⟩ := (sizes_iff hp hL' (by omega) (by omega) hL63').2
      ⟨by exact_mod_cast hcov, by exact_mod_cast htight, by omega⟩
    refine ⟨hexact, hok, fun index w hw => ?_, ?_⟩
    · exact pieces_real hp hL' (by omega) (by omega) hL63' hok hw
    · rw [hsum, hL']

/-- One file of `length` bytes in pieces of two, with `count` hashes. -/
def pairsFile (length : Int) (count : Nat) : TorrentFile :=
  ⟨{ name := ascii "x", pieces := List.replicate (20 * count) (chr 'a'), pieceLength := 2,
     length := some length, files := none, privateFlag := none }⟩

/-- Three bytes in two pieces. -/
theorem validateTorrentFile_sized_pairs :
    ∃ t, new (.fromValidated (pairsFile 3 2) 0 []) = some t ∧ t.Sized [3] := by
  obtain ⟨t, ht, hiff⟩ := validateTorrentFile_sized (pairsFile 3 2) (by decide)
    ⟨by decide, by decide⟩ 0 []
  exact ⟨t, ht, hiff.2 ⟨by decide, by decide, by decide, by decide, by decide⟩⟩

/-- One byte in three pieces is accepted as well. The last piece starts after the data, and its
size underflows. -/
theorem validateTorrentFile_underflow :
    ¬ ∀ (tf : TorrentFile), validateTorrentFile tf = .ok () → tf.info.Typed →
      ∀ (infoHash : Digest) (infoBytes : Bytes),
        ∃ t, new (.fromValidated tf infoHash infoBytes) = some t ∧ t.Sized tf.info.lengths := by
  intro h
  obtain ⟨t, ht, hs⟩ := h (pairsFile 1 3) (by decide) ⟨by decide, by decide⟩ 0 []
  obtain rfl : _ = t := some.inj ht
  exact absurd (hs.sizes 2 (by decide)).sub (by decide)

end Torrent

end BitRev
