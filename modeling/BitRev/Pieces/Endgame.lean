import BitRev.Pieces.Requests

/-!
# Blocks of the endgame

`endgame_blocks` walks over the pieces and over the offsets of each, and stops once it has found
enough. `scanEndgame` is the two loops; what they return is a prefix of the blocks that can be
requested (`Requestable`), in the order of the pieces and offsets.
-/

namespace BitRev.TorrentDownloadedState

open List

variable {t : TorrentDownloadedState} {limit index length n k : Nat} {found : List BlockRequest}

def calculateBlockSize (pieceLength requested : Nat) : Nat :=
  if pieceLength - requested < blockSize then pieceLength - requested else blockSize

/-- The loop over the offsets of a piece; every turn goes on by a byte or more. -/
def scanBlocks (wants : BlockRequest → Bool) (limit index length : Nat) :
    Nat → Nat → List BlockRequest → List BlockRequest
  | 0, _, found => found
  | n + 1, offset, found =>
    if offset < length then
      if found.length ≥ limit then found
      else
        let req := ⟨index, offset, calculateBlockSize length offset⟩
        scanBlocks wants limit index length n (offset + req.length)
          (if wants req then found ++ [req] else found)
    else found

/-- Whether the loop takes a block that was not received. -/
def rerequestable (t : TorrentDownloadedState) (peer : PeerAddr) (now : Nat) (req : BlockRequest) :
    Bool :=
  match t.blockAssignments.find? (·.1 = req) with
  | none => true
  | some (_, entry) =>
    let already := entry.requesters.contains peer
    let full := entry.requesters.length ≥ maxBlockRequesters
    let aged := now - entry.firstAt ≥ endgameRerequestAfter
    !already && !full && aged

lemma rerequestable_eq {peer : PeerAddr} {now : Nat} {req : BlockRequest} :
    t.rerequestable peer now req = (t.blockAssignments.find? (·.1 = req)).all fun (_, entry) =>
      peer ∉ entry.requesters && (entry.requesters.length < maxBlockRequesters &&
        entry.firstAt + endgameRerequestAfter ≤ now) := by
  unfold rerequestable
  split
  · simp [*]
  · rename_i entry hfind
    have haged : now - entry.firstAt ≥ endgameRerequestAfter ↔
        entry.firstAt + endgameRerequestAfter ≤ now := by
      unfold endgameRerequestAfter
      omega
    have hfull : decide (entry.requesters.length < maxBlockRequesters) =
        !decide (entry.requesters.length ≥ maxBlockRequesters) := by
      simp [← decide_not]
    simp [hfind, haged, hfull, Bool.and_assoc]

/-- The loop over the pieces. -/
def scanPieces (t : TorrentDownloadedState) (peer : PeerAddr) (peerHas : Nat → Bool)
    (limit now : Nat) : List PieceWorkState → List BlockRequest → List BlockRequest
  | [], found => found
  | pw :: rest, found =>
    let ⟨index, length⟩ := (pw.pieceWork.index, pw.pieceWork.length)
    if found.length ≥ limit then found
    else if pw.downloaded || !t.wanted index || pw.reserved.isNone || !peerHas index then
      t.scanPieces peer peerHas limit now rest found
    else
      let wants req := pw.chuncks.all (·.start ≠ req.start) && t.rerequestable peer now req
      t.scanPieces peer peerHas limit now rest (scanBlocks wants limit index length length 0 found)

def scanEndgame (t : TorrentDownloadedState) (peer : PeerAddr) (peerHas : Nat → Bool)
    (limit now : Nat) : List BlockRequest :=
  if limit = 0 || !t.inEndgame then [] else t.scanPieces peer peerHas limit now t.pieces []

lemma scanBlocks_eq (wants : BlockRequest → Bool) (index length : Nat)
    (hn : (length + blockSize - 1) / blockSize ≤ k + n) (hf : found.length ≤ limit) :
    scanBlocks wants limit index length n (min (k * blockSize) length) found =
      (found ++ ((blocksOf index length).drop k).filter wants).take limit := by
  have hlen : (blocksOf index length).length = (length + blockSize - 1) / blockSize := by
    simp [blocksOf]
  induction n generalizing k found with
  | zero =>
    rw [drop_of_length_le (by omega), filter_nil, append_nil, take_of_length_le hf]
    rfl
  | succ n ih =>
    rw [scanBlocks]
    have hk : k < _ ↔ k * blockSize < length := lt_blocks_iff
    split
    · rename_i hlt
      have hdrop : (blocksOf index length).drop k = ⟨index, min (k * blockSize) length,
          calculateBlockSize length (min (k * blockSize) length)⟩ ::
          (blocksOf index length).drop (k + 1) := by
        rw [drop_eq_getElem_cons (by omega)]
        congr 1
        simp only [blocksOf, getElem_map, getElem_range, calculateBlockSize,
          BlockRequest.mk.injEq, true_and]
        split <;> omega
      have hnext : min (k * blockSize) length +
          calculateBlockSize length (min (k * blockSize) length) =
          min ((k + 1) * blockSize) length := by
        simp only [calculateBlockSize, Nat.add_mul]
        split <;> omega
      split_ifs with hfull
      · rw [take_append_of_le_length hfull, take_of_length_le hf]
      · simp only [hnext]
        have hfound : ∀ req, (if wants req then found ++ [req] else found).length ≤ limit := by
          intro req
          split
          · rw [length_append, length_singleton]
            omega
          · exact hf
        rw [hdrop, ih (by omega) (hfound _), filter_cons]
        split <;> simp only [append_assoc, singleton_append]
    · rw [drop_of_length_le (by omega), filter_nil, append_nil,
        take_of_length_le hf]

lemma scanPieces_eq {peer : PeerAddr} {peerHas : Nat → Bool} {now : Nat}
    (pws : List PieceWorkState) (hf : found.length ≤ limit) :
    t.scanPieces peer peerHas limit now pws found = (found ++ (pws.filter fun pw =>
        t.missing pw && (pw.reserved.isSome && peerHas pw.pieceWork.index)).flatMap fun pw =>
      (blocksOf pw.pieceWork.index pw.pieceWork.length).filter fun req =>
        pw.chuncks.all (·.start ≠ req.start) && t.rerequestable peer now req).take limit := by
  induction pws generalizing found with
  | nil => simp [scanPieces, take_of_length_le hf]
  | cons pw pws ih =>
    rw [scanPieces]
    simp only
    split
    · rename_i hfull
      rw [take_append_of_le_length hfull, take_of_length_le hf]
    split_ifs with hskip
    · rw [ih hf, filter_cons_of_neg]
      grind [missing]
    · have hscan := scanBlocks_eq (fun req =>
        pw.chuncks.all (·.start ≠ req.start) && t.rerequestable peer now req) pw.pieceWork.index
        pw.pieceWork.length (k := 0) (n := pw.pieceWork.length) (by unfold blockSize; omega) hf
      rw [Nat.zero_mul, Nat.zero_min, drop_zero] at hscan
      rw [hscan, ih (by simp), filter_cons_of_pos, flatMap_cons]
      · rw [← append_assoc]
        generalize found ++ filter _ _ = xs
        rw [take_append, take_append, take_take, Nat.min_self, length_take]
        congr 2
        omega
      · grind [missing]

lemma scanEndgame_eq {peer : PeerAddr} {peerHas : Nat → Bool} {now : Nat} :
    t.scanEndgame peer peerHas limit now = t.endgameBlocks peer peerHas limit now := by
  unfold scanEndgame endgameBlocks
  simp only [← rerequestable_eq]
  rw [scanPieces_eq t.pieces (Nat.zero_le limit), nil_append]
  cases t.inEndgame with
  | false => simp
  | true =>
    by_cases hl : limit = 0
    · simp [hl]
    · simp [hl]

/-- The order of the pieces and, in a piece, of the offsets. -/
def Before (a b : BlockRequest) : Prop := a.index < b.index ∨ a.index = b.index ∧ a.start < b.start

lemma blocksOf_ordered : (blocksOf index length).Pairwise Before := by
  refine pairwise_map.2 (pairwise_lt_range.imp fun h => .inr ⟨rfl, ?_⟩)
  exact Nat.mul_lt_mul_of_pos_right h (by decide)

/-- The pieces stand in the order of their indices. -/
lemma Indexed.ordered (h : t.Indexed) :
    t.pieces.Pairwise fun pw pw' => pw.pieceWork.index < pw'.pieceWork.index := by
  have hat : ∀ i (hi : i < t.pieces.length), t.pieces[i].pieceWork.index = i := fun i hi =>
    h i t.pieces[i].flags (by rw [flagsAt, getElem?_eq_getElem hi]; rfl)
  refine pairwise_iff_getElem.2 fun i j hi hj hij => ?_
  rwa [hat, hat]

/-- The loops return the first blocks that can be requested, each once and in order, and only when
every wanted piece that is missing is reserved. -/
theorem scanEndgame_exact (h : t.Indexed) (peer : PeerAddr) (peerHas : Nat → Bool)
    (limit now : Nat) :
    t.scanEndgame peer peerHas limit now = t.endgameBlocks peer peerHas limit now ∧
      (t.scanEndgame peer peerHas limit now).Pairwise Before ∧
      (t.scanEndgame peer peerHas limit now).Nodup ∧
      (t.scanEndgame peer peerHas limit now ≠ [] → ∀ pw ∈ t.pieces,
        t.wanted pw.pieceWork.index → pw.downloaded = false → pw.reserved.isSome) := by
  have hordered : (t.endgameBlocks peer peerHas limit now).Pairwise Before := by
    unfold endgameBlocks
    split
    · exact .nil
    refine List.Pairwise.take (pairwise_flatMap.2 ⟨fun pw _ => ?_, ?_⟩)
    · exact blocksOf_ordered.filter _
    · refine (h.ordered.filter _).imp fun hlt a ha b hb => .inl ?_
      rw [(mem_blocksOf (mem_of_mem_filter ha)).1, (mem_blocksOf (mem_of_mem_filter hb)).1]
      exact hlt
  rw [scanEndgame_eq]
  refine ⟨rfl, hordered, hordered.imp fun hb heq => ?_, fun hne pw hpw hw hd => ?_⟩
  · subst heq
    exact hb.elim (lt_irrefl _) fun hs => lt_irrefl _ hs.2
  · unfold endgameBlocks at hne
    split_ifs at hne with hend
    · exact absurd rfl hne
    · simp only [inEndgame, Bool.not_eq_true', Bool.not_eq_false, Bool.and_eq_true,
        all_eq_true] at hend
      exact hend.2 pw (mem_filter.2 ⟨hpw, by simp [missing, hw, hd]⟩)

/-- One piece of two blocks that a peer has reserved. -/
def lastPiece : TorrentDownloadedState :=
  .new [{ pieceWork := ⟨0, 20000, 0⟩, reserved := some ⟨.v4 1, 1⟩ }]

theorem scanEndgame_last : lastPiece.Indexed ∧
    lastPiece.scanEndgame ⟨.v4 2, 2⟩ (fun _ => true) 9 0 = [⟨0, 0, 16384⟩, ⟨0, 16384, 3616⟩] := by
  have hi : lastPiece.Indexed := by
    rw [indexed_iff]
    rintro (_ | i) w hw <;> cases hw
    rfl
  exact ⟨hi, (scanEndgame_exact hi _ _ _ _).1.trans (by decide +kernel)⟩

end BitRev.TorrentDownloadedState
