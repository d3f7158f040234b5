import BitRev.Storage.Mapped

/-!
# The pieces of a well-formed torrent

`Torrent.WellFormed`: no file length is negative, the offsets and the length are the running sums,
and there is one hash for every started piece. Then the machine arithmetic of `utils.rs` is exact
(`WellFormed.bounds`, `WellFormed.calculatePieceSize_eq`), the pieces lie one after another, and
`map_piece_to_files` cuts a piece into stretches of the files that follow each other without gaps
(`WellFormed.mapPieceToFiles_tiles`).
-/

namespace BitRev

open List

namespace Torrent

open Storage

/-- The numbers of a torrent fit together: no length is negative, the offsets and the length are
the running sums, and there is a hash for every started piece. They are `i64`s. -/
structure WellFormed (t : Torrent) : Prop where
  lengths : ∀ f ∈ t.files, 0 ≤ f.length
  laid : t.files.map TorrentFileInfo.offset ++ [t.length] =
    (t.files.map TorrentFileInfo.length).scanl (· + ·) 0
  positive : 0 < t.pieceLength
  hashes : (t.pieceHashes.length : Int) = (t.length + t.pieceLength - 1) / t.pieceLength
  length_lt : t.length < 2 ^ 63
  pieceLength_lt : t.pieceLength < 2 ^ 63

def segments (t : Torrent) (files : List Nat) : List (Nat × Nat) :=
  (t.files.map fun f => f.length.toNat).zip files

def pieceStart (t : Torrent) (index : Nat) : Nat := index * t.pieceLength.toNat

def pieceSize (t : Torrent) (index : Nat) : Nat :=
  min t.pieceLength.toNat (t.length.toNat - t.pieceStart index)

lemma sum_toNat : ∀ {l : List Int}, (∀ x ∈ l, 0 ≤ x) → ((l.map Int.toNat).sum : Nat) = l.sum
  | [], _ => rfl
  | x :: l, h => by
    have ih := sum_toNat fun y hy => h y (mem_cons_of_mem x hy)
    have hx := h x mem_cons_self
    simp only [map_cons, sum_cons, ← ih]
    omega

namespace WellFormed

variable {t : Torrent} {files : List Nat} {index : Nat}

section

variable (h : t.WellFormed)
include h

lemma sum_eq : (t.files.map TorrentFileInfo.length).sum = t.length :=
  (length_of_laid h.laid).symm

lemma length_nonneg : 0 ≤ t.length := by
  rw [← h.sum_eq, ← sum_toNat (by simpa using h.lengths)]
  exact Int.natCast_nonneg _

variable (hi : index < t.pieceHashes.length)
include hi

lemma pieceStart_lt : t.pieceStart index < t.length.toNat := by
  have hp := h.positive
  have hL := h.length_nonneg
  have hn : ((index + 1 : Nat) : Int) ≤ (t.length + t.pieceLength - 1) / t.pieceLength := by
    rw [← h.hashes]
    exact_mod_cast hi
  have hmul := (Int.le_ediv_iff_mul_le hp).1 hn
  have hstart : (t.pieceStart index : Int) = index * t.pieceLength := by
    rw [pieceStart, Int.natCast_mul, Int.toNat_of_nonneg (by omega)]
  rw [Int.natCast_add, Int.add_mul] at hmul
  omega

lemma bounds :
    t.calculateBoundsForPiece index =
      (t.pieceStart index, t.pieceStart index + t.pieceSize index) := by
  have hp := h.positive
  have hL := h.length_nonneg
  have hp63 := h.pieceLength_lt
  have hL63 := h.length_lt
  have hlt := h.pieceStart_lt hi
  unfold pieceSize
  unfold pieceStart at hlt ⊢
  rw [bounds_eq (t := t) (p := t.pieceLength.toNat) (L := t.length.toNat) (by omega) (by omega)
    (by omega) (by omega) (by omega)]
  rw [Prod.mk.injEq]
  exact ⟨rfl, by omega⟩

lemma calculatePieceSize_eq : t.calculatePieceSize index = t.pieceSize index := by
  have hL63 := h.length_lt
  have hlt := h.pieceStart_lt hi
  simp only [calculatePieceSize, h.bounds hi, subUsize, pieceSize]
  omega

lemma pieceStop_le : t.pieceStart index + t.pieceSize index ≤ t.length.toNat := by
  have hlt := h.pieceStart_lt hi
  unfold pieceSize
  omega

end

/-- Two pieces lie one after the other. -/
lemma pieceStop_le_of_lt (t : Torrent) {i j : Nat} (h : i < j) :
    t.pieceStart i + t.pieceSize i ≤ t.pieceStart j := by
  have hle : (i + 1) * t.pieceLength.toNat ≤ j * t.pieceLength.toNat := Nat.mul_le_mul_right _ h
  rw [add_mul, one_mul] at hle
  unfold pieceSize pieceStart
  omega

lemma opens (t : Torrent) (files : List Nat) : Opens (t.segments files) files :=
  fun _ _ _ h => (getElem?_zip_eq_some.1 h).2

variable (hf : files.length = t.files.length)

include hf

lemma segments_fst : (t.segments files).map Prod.fst = t.files.map fun f => f.length.toNat := by
  rw [segments, map_fst_zip (by simp [hf])]

lemma segments_snd : (t.segments files).map Prod.snd = files := by
  rw [segments, map_snd_zip (by simp [hf])]

lemma segments_sum (h : t.WellFormed) : ((t.segments files).map Prod.fst).sum = t.length.toNat := by
  have hs := sum_toNat (l := t.files.map TorrentFileInfo.length) (by simpa using h.lengths)
  rw [map_map, h.sum_eq] at hs
  rw [segments_fst hf]
  simp only [Function.comp_def] at hs
  omega

lemma startOf_eq (h : t.WellFormed) {j : Nat} {f : TorrentFileInfo} (hj : t.files[j]? = some f) :
    (startOf (t.segments files) j : Int) = f.offset := by
  have hlt := (List.getElem?_eq_some_iff.1 hj).1
  have hlaid := congrArg (·[j]?) h.laid
  simp only [getElem?_append_left (show j < (t.files.map TorrentFileInfo.offset).length by
    simpa using hlt), getElem?_map, hj, Option.map_some, getElem?_scanl,
    length_map, if_pos (le_of_lt hlt), ← map_take, Option.some.injEq,
    ← sum_eq_foldl] at hlaid
  have hs := sum_toNat (l := (t.files.take j).map TorrentFileInfo.length) fun l hl => by
    obtain ⟨f, hf, rfl⟩ := mem_map.1 hl
    exact h.lengths f (mem_of_mem_take hf)
  rw [hlaid, ← hs, startOf, map_take, segments_fst hf, ← map_take, map_map]
  rfl

lemma segments_getElem {j : Nat} {f : TorrentFileInfo} (hj : t.files[j]? = some f) :
    ∃ file, (t.segments files)[j]? = some (f.length.toNat, file) := by
  have hlt := (List.getElem?_eq_some_iff.1 hj).1
  refine ⟨files[j], getElem?_zip_eq_some.2 ⟨?_, ?_⟩⟩
  · simp [hj]
  · exact getElem?_eq_getElem (by omega)

end WellFormed

/-- The stretch of a file in the range from `start` to `stop`, as `map_piece_to_files` computes
it. -/
def overlapOf (start stop : Nat) : TorrentFileInfo × Nat → Option PieceFileMapping :=
  fun (file, fileIndex) =>
    let fileStart := asUsize file.offset
    let fileStop := addUsize fileStart (asUsize file.length)
    if start < fileStop ∧ stop > fileStart then
      let overlapStart := max start fileStart
      let overlapStop := min stop fileStop
      some ⟨fileIndex, overlapStart - fileStart, overlapStop - overlapStart⟩
    else none

lemma startOf_succ {segs : List (Nat × Nat)} {i slen file : Nat}
    (h : segs[i]? = some (slen, file)) : startOf segs (i + 1) = startOf segs i + slen := by
  simp [startOf, take_add_one, h]

lemma startOf_le (segs : List (Nat × Nat)) (i : Nat) :
    startOf segs i ≤ (segs.map Prod.fst).sum := by
  rw [startOf, map_take]
  conv_rhs => rw [← take_append_drop i (segs.map Prod.fst), sum_append]
  exact Nat.le_add_right _ _

/-- The stretches of the files from the `k`-th on. -/
lemma tiles_from (segs : List (Nat × Nat)) {start stop : Nat} (hle : start ≤ stop) :
    ∀ (fs : List TorrentFileInfo) (k : Nat),
      (∀ (j : Nat) (f : TorrentFileInfo), fs[j]? = some f → 0 ≤ f.length ∧
        f.offset = startOf segs (k + j) ∧ f.offset + f.length < 2 ^ 63 ∧
        ∃ file, segs[k + j]? = some (f.length.toNat, file)) →
      Tiles segs (min (max start (startOf segs k)) stop) ((fs.zipIdx k).filterMap
        (overlapOf start stop)) (min (max start (startOf segs (k + fs.length))) stop)
  | [], _, _ => rfl
  | f :: fs, k, h => by
    obtain ⟨hlen, hoff, hlt, file, hseg⟩ := h 0 f rfl
    rw [add_zero] at hoff hseg
    have hsucc := startOf_succ hseg
    have ih := tiles_from segs hle fs (k + 1) fun j f' hj => by
      have := h (j + 1) f' (by simpa using hj)
      rwa [show k + (j + 1) = k + 1 + j by omega] at this
    rw [hsucc, show k + 1 + fs.length = k + (f :: fs).length by simp; omega] at ih
    have hfs : asUsize f.offset = startOf segs k := by
      rw [asUsize]
      omega
    have hfe : addUsize (startOf segs k) (asUsize f.length) =
        startOf segs k + f.length.toNat := by
      rw [asUsize, addUsize]
      omega
    rw [zipIdx_cons]
    by_cases hov : start < startOf segs k + f.length.toNat ∧ stop > startOf segs k
    · rw [filterMap_cons_some (b := ⟨k, max start (startOf segs k) - startOf segs k,
        min stop (startOf segs k + f.length.toNat) - max start (startOf segs k)⟩)
        (by simp only [overlapOf, hfs, hfe, if_pos hov])]
      refine ⟨⟨_, hseg, ?_, ?_⟩, ?_⟩
      · simp only
        omega
      · simp only
        omega
      · simp only
        rw [show min (max start (startOf segs k)) stop + (min stop (startOf segs k +
          f.length.toNat) - max start (startOf segs k)) =
          min (max start (startOf segs k + f.length.toNat)) stop by omega]
        exact ih
    · rw [filterMap_cons_none (by simp only [overlapOf, hfs, hfe, if_neg hov])]
      rw [show min (max start (startOf segs k)) stop =
        min (max start (startOf segs k + f.length.toNat)) stop by omega]
      exact ih

/-- `map_piece_to_files` cuts a piece into stretches of the files. -/
lemma WellFormed.mapPieceToFiles_tiles {t : Torrent} {files : List Nat} {index : Nat}
    (h : t.WellFormed) (hf : files.length = t.files.length) (hi : index < t.pieceHashes.length) :
    Tiles (t.segments files) (t.pieceStart index) (t.mapPieceToFiles index)
      (t.pieceStart index + t.pieceSize index) := by
  have hstop := h.pieceStop_le hi
  have hall : startOf (t.segments files) t.files.length = t.length.toNat := by
    rw [← segments_sum hf h, startOf, take_of_length_le (by simp [segments, hf])]
  have ht := tiles_from (t.segments files) (Nat.le_add_right (t.pieceStart index)
    (t.pieceSize index)) t.files 0 fun j f hj => by
      have hlen := h.lengths f (mem_of_getElem? hj)
      have hoff := startOf_eq hf h hj
      obtain ⟨file, hseg⟩ := segments_getElem hf hj
      rw [zero_add]
      have hle := startOf_le (t.segments files) (j + 1)
      rw [startOf_succ hseg, segments_sum hf h] at hle
      have hL63 := h.length_lt
      exact ⟨hlen, hoff.symm, by omega, file, hseg⟩
  rw [zero_add, hall, show startOf (t.segments files) 0 = 0 from rfl] at ht
  rw [show min (max (t.pieceStart index) 0) (t.pieceStart index + t.pieceSize index) =
    t.pieceStart index by omega, show min (max (t.pieceStart index) t.length.toNat)
    (t.pieceStart index + t.pieceSize index) = t.pieceStart index + t.pieceSize index by omega] at ht
  rw [mapPieceToFiles, h.bounds hi]
  exact ht

end Torrent

end BitRev
