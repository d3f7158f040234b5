import BitRev.Storage.Flat

/-!
# The bytes of a torrent

`map_piece_to_files` (`utils.rs`) goes through every byte of every file once, in the order of the
torrent (`WellFormed.mapPieceToFiles_bytes`).
-/

namespace BitRev

open Storage
open Store (twoFiles twoFiles_wellFormed)
open List

/-- The bytes of a mapping, each given by its file and its place in it. -/
def PieceFileMapping.bytes (m : PieceFileMapping) : List (Nat × Nat) :=
  (List.range m.length).map fun k => (m.fileIndex, m.fileOffset + k)

namespace Torrent

/-- Every byte of the files, in the order of the torrent. -/
def bytes (t : Torrent) : List (Nat × Nat) :=
  t.files.zipIdx.flatMap fun (file, i) => (List.range file.length.toNat).map (i, ·)

variable {t : Torrent}

lemma mem_bytes {f k : Nat} :
    (f, k) ∈ t.bytes ↔ ∃ file, t.files[f]? = some file ∧ k < file.length.toNat := by
  simp only [bytes, mem_flatMap, mem_map, mem_range, Prod.mk.injEq, Prod.exists,
    mem_zipIdx_iff_getElem?]
  constructor
  · rintro ⟨file, i, hi, k', hk, rfl, rfl⟩
    exact ⟨file, hi, hk⟩
  · rintro ⟨file, hi, hk⟩
    exact ⟨file, f, hi, k, hk, rfl, rfl⟩

lemma nodup_bytes : t.bytes.Nodup := by
  rw [bytes, nodup_flatMap]
  refine ⟨fun x _ => nodup_range.map fun _ _ h => (Prod.mk.inj h).2, ?_⟩
  have hnd : (t.files.zipIdx.map Prod.snd).Nodup := by
    rw [zipIdx_map_snd]
    exact nodup_range'
  refine (pairwise_map.1 hnd).imp fun hne => ?_
  simp only [Function.onFun, disjoint_left, mem_map]
  rintro _ ⟨k, -, rfl⟩ ⟨k', -, heq⟩
  exact hne (Prod.mk.inj heq).1.symm

/-- The segments of the files, each with its own number. -/
def spans (t : Torrent) : List (Nat × Nat) := t.segments (List.range t.files.length)

lemma spans_eq : t.spans = t.files.zipIdx.map fun x => (x.1.length.toNat, x.2) := by
  rw [spans, segments, zip_map_left, zipIdx_eq_zip_range', range_eq_range']
  rfl

/-- The contents whose bytes say where they are. -/
def addresses (t : Torrent) (file : Nat) : List (Nat × Nat) :=
  (List.range ((t.files[file]?.map (·.length.toNat)).getD 0)).map (file, ·)

lemma addresses_eq {i : Nat} {file : TorrentFileInfo} (h : t.files[i]? = some file) :
    t.addresses i = (List.range file.length.toNat).map (i, ·) := by
  rw [addresses, h]
  rfl

lemma flat_addresses : flat (0, 0) t.addresses t.spans = t.bytes := by
  rw [flat, spans_eq, flatMap_map, bytes]
  refine flatMap_congr fun x hx => ?_
  have hfile := addresses_eq (mem_zipIdx_iff_getElem?.1 hx)
  refine map_congr_left fun k hk => ?_
  rw [hfile, getD_eq_getElem?_getD, getElem?_map, getElem?_range (mem_range.1 hk)]
  rfl

/-- Stretches of the files that follow each other are a stretch of the torrent. -/
lemma flatMap_bytes_of_tiles {ms : List PieceFileMapping} {pos stop : Nat}
    (h : Tiles t.spans pos ms stop) : ms.flatMap (·.bytes) = window t.bytes pos (stop - pos) := by
  induction ms generalizing pos with
  | nil =>
    obtain rfl : pos = stop := h
    simp [window]
  | cons m ms ih =>
    obtain ⟨⟨⟨len, file⟩, hseg, hle, hpos⟩, hrest⟩ := h
    have hstop := hrest.le
    obtain ⟨x, hx, heq⟩ := Option.map_eq_some_iff.1 ((getElem?_map ..).symm.trans (spans_eq ▸ hseg))
    obtain ⟨f, hf, rfl⟩ := Option.map_eq_some_iff.1 ((getElem?_zipIdx ..).symm.trans hx)
    obtain ⟨rfl, rfl⟩ := Prod.mk.inj heq
    rw [Nat.zero_add] at hseg
    have hm : window (t.addresses m.fileIndex) m.fileOffset m.length = m.bytes := by
      rw [addresses_eq hf]
      refine ext_getElem? fun k => ?_
      simp only [window, PieceFileMapping.bytes, getElem?_take, getElem?_drop, getElem?_map]
      dsimp only at hle
      split
      · rw [getElem?_range (by omega), getElem?_range (by omega)]
        rfl
      · rw [getElem?_eq_none (by simpa using Nat.le_of_not_lt (by assumption))]
        rfl
    have hread := flat_read (0, 0) t.addresses hseg hle
    rw [hm, flat_addresses, hpos, show m.bytes.length = m.length by
      simp [PieceFileMapping.bytes]] at hread
    rw [flatMap_cons, ih hrest, ← hread, window_add]
    congr 1
    omega

namespace WellFormed

lemma flatMap_bytes (h : t.WellFormed) {i : Nat} (hi : i < t.pieceHashes.length) :
    (t.mapPieceToFiles i).flatMap (·.bytes) = window t.bytes (t.pieceStart i) (t.pieceSize i) := by
  have := flatMap_bytes_of_tiles (h.mapPieceToFiles_tiles (by simp) hi)
  rwa [Nat.add_sub_cancel_left] at this

lemma length_bytes (h : t.WellFormed) : t.bytes.length = t.length.toNat := by
  rw [← flat_addresses, length_flat]
  exact segments_sum (by simp) h

/-- The pieces before the `n`-th are the first bytes of the torrent. -/
lemma flatMap_range (h : t.WellFormed) {n : Nat} (hn : n ≤ t.pieceHashes.length) :
    (List.range n).flatMap (fun i => (t.mapPieceToFiles i).flatMap (·.bytes)) =
      t.bytes.take (t.pieceStart n) := by
  induction n with
  | zero => simp [pieceStart]
  | succ n ih =>
    have hstart : t.pieceStart (n + 1) = t.pieceStart n + t.pieceLength.toNat := by
      rw [pieceStart, pieceStart, Nat.add_mul, Nat.one_mul]
    rw [range_succ, flatMap_append, ih (by omega), flatMap_singleton,
      h.flatMap_bytes (by omega), hstart, take_add, window, pieceSize, ← h.length_bytes,
      ← length_drop]
    rw [← take_take, take_length]

end WellFormed

/-- The pieces go through the bytes of the torrent once and in order. -/
theorem WellFormed.mapPieceToFiles_bytes (h : t.WellFormed) :
    (List.range t.pieceHashes.length).flatMap
        (fun i => (t.mapPieceToFiles i).flatMap (·.bytes)) = t.bytes ∧
      t.bytes.Nodup ∧
      (∀ f k, (f, k) ∈ t.bytes ↔ ∃ file, t.files[f]? = some file ∧ (k : Int) < file.length) ∧
      ∀ i < t.pieceHashes.length,
        (t.mapPieceToFiles i).flatMap (·.bytes) =
          window t.bytes (i * t.pieceLength.toNat) (t.calculatePieceSize i) ∧
        ((t.mapPieceToFiles i).map (·.length)).sum = t.calculatePieceSize i := by
  refine ⟨?_, nodup_bytes, fun f k => ?_, fun i hi => ?_⟩
  · rw [h.flatMap_range (Nat.le_refl _), take_of_length_le]
    have hp := h.positive
    have hlt := Int.lt_ediv_add_one_mul_self (t.length + t.pieceLength - 1) hp
    rw [← h.hashes, Int.add_mul, Int.one_mul] at hlt
    have hstart : (t.pieceStart t.pieceHashes.length : Int) =
        t.pieceHashes.length * t.pieceLength := by
      rw [pieceStart, Int.natCast_mul, Int.toNat_of_nonneg (by omega)]
    rw [h.length_bytes]
    omega
  · rw [mem_bytes]
    refine exists_congr fun file => and_congr_right fun _ => ?_
    omega
  · have hbytes := h.flatMap_bytes hi
    rw [h.calculatePieceSize_eq hi]
    refine ⟨hbytes, ?_⟩
    have hlen := congrArg List.length hbytes
    rw [length_window (by rw [h.length_bytes]; exact h.pieceStop_le hi),
      length_flatMap] at hlen
    simpa [PieceFileMapping.bytes] using hlen

theorem twoFiles_bytes : twoFiles.WellFormed ∧
    (List.range twoFiles.pieceHashes.length).flatMap
      (fun i => (twoFiles.mapPieceToFiles i).flatMap (·.bytes)) = twoFiles.bytes :=
  ⟨twoFiles_wellFormed, (WellFormed.mapPieceToFiles_bytes twoFiles_wellFormed).1⟩

end Torrent

end BitRev
