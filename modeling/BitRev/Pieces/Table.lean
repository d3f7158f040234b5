import BitRev.Metainfo.Magnet
import BitRev.Pieces.Utils

/-!
# The piece table

`TorrentDownloadedState` (`peer_connection.rs`): the chunks received of each piece, which pieces
are downloaded, reserved and claimed for writing, and which are wanted under the file priorities.
The picker's own data (availability, bootstrap, first and last pieces) is not part of this table.

What the rest of the client sees of a piece is its `PieceFlags`; each operation has a lemma that
says what it does to the flags of every piece.
-/

namespace BitRev

open List Option

abbrev PeerAddr := SocketAddr

structure BlockRequest where
  index : Nat
  start : Nat
  length : Nat
  deriving DecidableEq

structure BlockAssignment where
  requesters : List PeerAddr
  firstAt : Nat
  deriving DecidableEq

structure PieceWork where
  index : Nat
  length : Nat
  hash : Digest
  deriving DecidableEq

structure Chunk where
  index : Nat
  start : Nat
  length : Nat
  buf : Bytes
  peer : PeerAddr
  deriving DecidableEq

structure FullPiece where
  index : Nat
  length : Nat
  buf : Bytes
  deriving DecidableEq

structure PieceWorkState where
  pieceWork : PieceWork
  chuncks : List Chunk := []
  downloaded : Bool := false
  reserved : Option PeerAddr := none
  writeClaimed : Bool := false
  deriving DecidableEq

namespace PieceWorkState

/-- The chunks, sorted by start, run on without a gap or an overlap up to the piece's length. -/
def piecesCover (length : Nat) : Nat → List (Nat × Nat) → Bool
  | covered, [] => covered = length
  | covered, (start, len) :: spans =>
    if start ≠ covered then false else piecesCover length (satAddU32 covered len) spans

def spanLe (a b : Nat × Nat) : Prop := a.1 < b.1 ∨ (a.1 = b.1 ∧ a.2 ≤ b.2)

instance : DecidableRel spanLe := fun a b =>
  inferInstanceAs (Decidable (a.1 < b.1 ∨ (a.1 = b.1 ∧ a.2 ≤ b.2)))

def pieceChunksCover (pw : PieceWorkState) : Bool :=
  piecesCover pw.pieceWork.length 0
    ((pw.chuncks.map fun c => (c.start, c.length)).insertionSort spanLe)

/-- `buf` with `data` copied to `start`, if it fits. -/
def copyChunk (buf : Bytes) (c : Chunk) : Bytes :=
  if c.start + c.buf.length ≤ buf.length then
    buf.take c.start ++ c.buf ++ buf.drop (c.start + c.buf.length)
  else buf

def chunkToBuf (pw : PieceWorkState) : Bytes :=
  pw.chuncks.foldl copyChunk (List.replicate pw.pieceWork.length 0)

end PieceWorkState

inductive FilePriority where
  | skip
  | low
  | normal
  | high
  deriving DecidableEq

namespace FilePriority

def rank : FilePriority → Nat
  | skip => 0
  | low => 1
  | normal => 2
  | high => 3

def max (a b : FilePriority) : FilePriority := if a.rank ≤ b.rank then b else a

/-- Pad or truncate `given` to `fileCount`; missing entries are `normal`. -/
def normalizeList (fileCount : Nat) (given : List FilePriority) : List FilePriority :=
  given.take fileCount ++ List.replicate (fileCount - given.length) normal

end FilePriority

structure TorrentDownloadedState where
  pieces : List PieceWorkState
  verified : Nat
  blockAssignments : List (BlockRequest × BlockAssignment) := []
  duplicateBytes : Nat := 0
  sequential : Bool := false
  filePriorities : List FilePriority := []
  piecePriority : List FilePriority
  pieceFiles : List (List Nat) := []
  fileCount : Nat := 0
  deriving DecidableEq

namespace TorrentDownloadedState

def new (pieces : List PieceWorkState) : TorrentDownloadedState :=
  { pieces, verified := pieces.countP (·.downloaded),
    piecePriority := List.replicate pieces.length .normal }

variable (t : TorrentDownloadedState)

def pieceCount : Nat := t.pieces.length

def hasPiece (index : Nat) : Bool :=
  (t.pieces[index]?.map (·.downloaded)).getD false

/-- The bit of each piece that is downloaded. -/
def ourBitfield : List Bool := t.pieces.map (·.downloaded)

def piecePrio (index : Nat) : FilePriority :=
  t.piecePriority[index]?.getD .normal

def wanted (index : Nat) : Bool :=
  index < t.pieces.length && t.piecePrio index ≠ .skip

def isComplete : Bool :=
  t.pieces ≠ [] && t.pieces.zipIdx.all fun (pw, i) => pw.downloaded || !t.wanted i

def noteBlockReceived (req : BlockRequest) (peer : PeerAddr) :
    TorrentDownloadedState × List PeerAddr :=
  ({ t with blockAssignments := t.blockAssignments.filter (·.1 ≠ req) },
    ((t.blockAssignments.find? (·.1 = req)).map fun (_, entry) =>
      entry.requesters.filter (· ≠ peer)).getD [])

/-- A chunk that starts where one has been received is dropped as a duplicate. -/
def setChuncks (index start : Nat) (buf : Bytes) (peer : PeerAddr) :
    TorrentDownloadedState × Bool :=
  match t.pieces.findIdx? (·.pieceWork.index = index) with
  | none => (t, false)
  | some i =>
    if (t.pieces[i]?.map (·.chuncks.any (·.start = start))).getD false then
      ({ t with duplicateBytes := t.duplicateBytes + buf.length }, false)
    else
      ({ t with pieces := t.pieces.modify i fun pw =>
          { pw with chuncks := pw.chuncks ++ [⟨index, start, buf.length % 2 ^ 32, buf, peer⟩] } },
        true)

def setDownloadedIfAllChunks (index : Nat) : TorrentDownloadedState × Option PieceWorkState :=
  match t.pieces[index]? with
  | none => (t, none)
  | some pw =>
    if pw.downloaded || !pw.pieceChunksCover then (t, none)
    else
      ({ t with
          pieces := t.pieces.modify index fun pw => { pw with downloaded := true }
          verified := t.verified + 1 },
        some pw)

def removeDownloaded (index : Nat) : TorrentDownloadedState :=
  { t with
    pieces := t.pieces.map fun pw =>
      if pw.pieceWork.index = index then
        { pw with chuncks := [], writeClaimed := false, downloaded := false }
      else pw
    verified := t.verified -
      t.pieces.countP fun pw => pw.pieceWork.index = index && pw.downloaded }

def clearPieceChunks (index : Nat) : TorrentDownloadedState :=
  { t with pieces := t.pieces.modify index fun pw => { pw with chuncks := [] } }

/-- The first successful hash of a piece wins. -/
def claimWrite (index : Nat) : TorrentDownloadedState × Bool :=
  ({ t with pieces := t.pieces.modify index fun pw => { pw with writeClaimed := true } },
    (t.pieces[index]?.map (!·.writeClaimed)).getD false)

def releasePiece (index : Nat) : TorrentDownloadedState :=
  { t with
    pieces := t.pieces.modify index fun pw =>
      { pw with reserved := none, chuncks := if pw.downloaded then pw.chuncks else [] } }

def pieceContributors (index : Nat) : List PeerAddr :=
  match t.pieces[index]? with
  | none => []
  | some pw => pw.chuncks.foldl (fun ps c => if c.peer ∈ ps then ps else ps ++ [c.peer]) []

def markDownloaded (index : Nat) : TorrentDownloadedState :=
  { t with
    pieces := t.pieces.modify index fun pw => { pw with downloaded := true }
    verified := t.verified +
      (t.pieces[index]?.map fun pw => if pw.downloaded then 0 else 1).getD 0 }

def markAllDownloaded : TorrentDownloadedState :=
  { t with
    pieces := t.pieces.map fun pw => { pw with downloaded := true }
    verified := t.verified + t.pieces.countP (!·.downloaded) }

def clearAllDownloaded : TorrentDownloadedState :=
  (List.range t.pieces.length).foldl removeDownloaded t

/-- `resume::apply_bitfield`. -/
def applyBitfield (bits : List Bool) : TorrentDownloadedState :=
  (List.range t.pieces.length).foldl
    (fun t i => if bits[i]?.getD false then t.markDownloaded i else t) t

/-! ## File priorities -/

def blockSize : Nat := 16384

def blocksOf (index length : Nat) : List BlockRequest :=
  (List.range ((length + blockSize - 1) / blockSize)).map fun k =>
    ⟨index, k * blockSize, min blockSize (length - k * blockSize)⟩

def maxPriority (prios : List FilePriority) (files : List Nat) : FilePriority :=
  if files = [] then .normal
  else (files.map fun f => prios[f]?.getD .normal).foldl FilePriority.max .skip

def recomputePiecePriority : TorrentDownloadedState :=
  { t with
    piecePriority := t.piecePriority.mapIdx fun i prio =>
      (t.pieceFiles[i]?.map (maxPriority t.filePriorities)).getD prio }

/-- One turn of `unwant_skipped`: an unwanted piece that is not downloaded is given up, and every
request for it is to be cancelled. -/
def unwantPiece (cancels : List (PeerAddr × BlockRequest))
    (index : Nat) : TorrentDownloadedState × List (PeerAddr × BlockRequest) :=
  match t.pieces[index]? with
  | none => (t, cancels)
  | some pw =>
    if t.wanted index || pw.downloaded then (t, cancels)
    else
      let assigned := t.blockAssignments.filter (·.1.index = index)
      let cancels := cancels ++ assigned.flatMap fun (req, entry) => entry.requesters.map (·, req)
      let reserved := pw.reserved.toList.flatMap fun peer =>
        (blocksOf index pw.pieceWork.length).map (peer, ·)
      ({ t with
          blockAssignments := t.blockAssignments.filter (·.1.index ≠ index)
          pieces := t.pieces.modify index fun pw =>
            { pw with reserved := none, chuncks := [], writeClaimed := false } },
        cancels ++ reserved.filter (· ∉ cancels))

def unwantSkipped : TorrentDownloadedState × List (PeerAddr × BlockRequest) :=
  (List.range t.pieces.length).foldl (fun (t, cancels) i => t.unwantPiece cancels i) (t, [])

/-- Without files, as before `installContent`, the list given decides the length. -/
def applyFilePriorities (priorities : List FilePriority) :
    TorrentDownloadedState × List (PeerAddr × BlockRequest) :=
  let fileCount := if t.fileCount = 0 then priorities.length else t.fileCount
  { t with filePriorities := FilePriority.normalizeList fileCount priorities }
    |>.recomputePiecePriority.unwantSkipped

def installContent (torrent : Torrent) (sequential : Bool) (priorities : List FilePriority) :
    TorrentDownloadedState × List (PeerAddr × BlockRequest) :=
  { t with
    pieceFiles := (List.range t.pieces.length).map fun i =>
      (torrent.mapPieceToFiles i).map PieceFileMapping.fileIndex
    fileCount := torrent.files.length
    sequential } |>.applyFilePriorities priorities

def setFilePriority (fileIndex : Nat) (prio : FilePriority) :
    Option (TorrentDownloadedState × List (PeerAddr × BlockRequest)) :=
  if fileIndex ≥ t.filePriorities.length then none
  else some (t.applyFilePriorities (t.filePriorities.set fileIndex prio))

end TorrentDownloadedState

def Torrent.piecesOfWork (t : Torrent) : List PieceWorkState :=
  t.pieceHashes.mapIdx fun index hash =>
    { pieceWork := ⟨index, t.calculatePieceSize index % 2 ^ 32, hash⟩ }

/-! ## What the operations change

Of each piece, its work and its two flags decide what the rest of the client does with it; the
chunks and the reservation of a piece only lead to the flags. -/

structure PieceFlags where
  work : PieceWork
  downloaded : Bool
  writeClaimed : Bool

def PieceWorkState.flags (pw : PieceWorkState) : PieceFlags :=
  ⟨pw.pieceWork, pw.downloaded, pw.writeClaimed⟩

namespace TorrentDownloadedState

def flagsAt (t : TorrentDownloadedState) (i : Nat) : Option PieceFlags :=
  t.pieces[i]?.map PieceWorkState.flags

def Indexed (t : TorrentDownloadedState) : Prop :=
  ∀ (i : Nat) (f : PieceFlags), t.flagsAt i = some f → f.work.index = i

variable (t : TorrentDownloadedState) (i j : Nat)

lemma hasPiece_eq : t.hasPiece i = ((t.flagsAt i).map PieceFlags.downloaded).getD false := by
  rw [hasPiece, flagsAt, Option.map_map]
  rfl

section

variable (f : PieceWorkState → PieceWorkState)

lemma flagsAt_modify (g : PieceFlags → PieceFlags) (hf : ∀ pw, (f pw).flags = g pw.flags) :
    (t.pieces.modify i f)[j]?.map PieceWorkState.flags =
      (t.flagsAt j).map fun x => if i = j then g x else x := by
  rw [getElem?_modify, flagsAt, Option.map_eq_map, Option.map_map, Option.map_map]
  refine congrArg (Option.map · _) (funext fun pw => ?_)
  simp only [Function.comp_apply]
  split
  · exact hf pw
  · rfl

/-- A change of chunks and reservations changes no flags. -/
lemma flagsAt_modify_id (hf : ∀ pw, (f pw).flags = pw.flags) :
    (t.pieces.modify i f)[j]?.map PieceWorkState.flags = t.flagsAt j := by
  rw [flagsAt_modify t i j f id hf]
  cases t.flagsAt j <;> simp

@[simp] lemma noteBlockReceived_flagsAt (req : BlockRequest) (peer : PeerAddr) :
    (t.noteBlockReceived req peer).1.flagsAt j = t.flagsAt j := rfl

@[simp] lemma setChuncks_flagsAt (start : Nat) (buf : Bytes) (peer : PeerAddr) :
    (t.setChuncks i start buf peer).1.flagsAt j = t.flagsAt j := by
  unfold setChuncks
  split
  · rfl
  · split
    · rfl
    · exact flagsAt_modify_id t _ j _ fun _ => rfl

@[simp] lemma clearPieceChunks_flagsAt : (t.clearPieceChunks i).flagsAt j = t.flagsAt j :=
  flagsAt_modify_id t i j _ fun _ => rfl

@[simp] lemma releasePiece_flagsAt : (t.releasePiece i).flagsAt j = t.flagsAt j :=
  flagsAt_modify_id t i j _ fun _ => rfl

@[simp] lemma removeDownloaded_flagsAt :
    (t.removeDownloaded i).flagsAt j =
      (t.flagsAt j).map fun x =>
        if x.work.index = i then { x with downloaded := false, writeClaimed := false } else x := by
  rw [removeDownloaded, flagsAt, flagsAt, getElem?_map, Option.map_map, Option.map_map]
  refine congrArg (Option.map · _) (funext fun pw => ?_)
  by_cases h : pw.pieceWork.index = i <;> simp [PieceWorkState.flags, h]

@[simp] lemma claimWrite_flagsAt :
    (t.claimWrite i).1.flagsAt j =
      (t.flagsAt j).map fun x => if i = j then { x with writeClaimed := true } else x :=
  flagsAt_modify t i j _ _ fun _ => rfl

lemma claimWrite_snd : (t.claimWrite i).2 = ((t.flagsAt i).map (!·.writeClaimed)).getD false := by
  rw [claimWrite, flagsAt, Option.map_map]
  rfl

/-- A piece becomes downloaded here only if it was not, and is then handed out. -/
lemma setDownloadedIfAllChunks_cases :
    ((t.setDownloadedIfAllChunks i).2 = none ∧
      ∀ j, (t.setDownloadedIfAllChunks i).1.flagsAt j = t.flagsAt j) ∨
    ∃ pw, (t.setDownloadedIfAllChunks i).2 = some pw ∧ t.pieces[i]? = some pw ∧
      pw.downloaded = false ∧
      ∀ j, (t.setDownloadedIfAllChunks i).1.flagsAt j =
        (t.flagsAt j).map fun x => if i = j then { x with downloaded := true } else x := by
  unfold setDownloadedIfAllChunks
  split
  · exact .inl ⟨rfl, fun _ => rfl⟩
  · rename_i pw hpw
    split
    · exact .inl ⟨rfl, fun _ => rfl⟩
    · rename_i hnot
      refine .inr ⟨pw, rfl, hpw, ?_, fun j => flagsAt_modify t i j _ _ fun _ => rfl⟩
      simp only [Bool.or_eq_true, not_or, Bool.not_eq_true] at hnot
      exact hnot.1

/-- The pieces as the torrent has them, whatever has become of each. -/
def works : List PieceWork := t.pieces.map PieceWorkState.pieceWork

lemma works_modify (hf : ∀ pw, (f pw).pieceWork = pw.pieceWork) :
    (t.pieces.modify i f).map PieceWorkState.pieceWork = t.works := by
  refine ext_getElem? fun j => ?_
  rw [works, getElem?_map, getElem?_map, getElem?_modify]
  cases t.pieces[j]? with
  | none => rfl
  | some pw =>
    simp only [Option.map_eq_map, map_some, some.injEq]
    split
    · exact hf pw
    · rfl

end

@[simp] lemma setChuncks_works (start : Nat) (buf : Bytes) (peer : PeerAddr) :
    (t.setChuncks i start buf peer).1.works = t.works := by
  unfold setChuncks
  split
  · rfl
  · split
    · rfl
    · exact works_modify t _ _ fun _ => rfl

@[simp] lemma setDownloadedIfAllChunks_works :
    (t.setDownloadedIfAllChunks i).1.works = t.works := by
  unfold setDownloadedIfAllChunks
  split
  · rfl
  · split
    · rfl
    · exact works_modify t i _ fun _ => rfl

@[simp] lemma removeDownloaded_works : (t.removeDownloaded i).works = t.works := by
  rw [works, works, removeDownloaded, List.map_map]
  refine map_congr_left fun pw _ => ?_
  simp only [Function.comp_apply]
  split <;> rfl

@[simp] lemma clearPieceChunks_works : (t.clearPieceChunks i).works = t.works :=
  works_modify t i _ fun _ => rfl

@[simp] lemma claimWrite_works : (t.claimWrite i).1.works = t.works :=
  works_modify t i _ fun _ => rfl

@[simp] lemma releasePiece_works : (t.releasePiece i).works = t.works :=
  works_modify t i _ fun _ => rfl

@[simp] lemma markDownloaded_works : (t.markDownloaded i).works = t.works :=
  works_modify t i _ fun _ => rfl

lemma applyBitfield_works (bits : List Bool) : (t.applyBitfield bits).works = t.works := by
  unfold applyBitfield
  induction range t.pieces.length generalizing t with
  | nil => rfl
  | cons i l ih =>
    rw [foldl_cons, ih]
    split
    · exact t.markDownloaded_works i
    · rfl

lemma unwantPiece_works (cancels : List (PeerAddr × BlockRequest)) :
    (t.unwantPiece cancels i).1.works = t.works := by
  unfold unwantPiece
  split
  · rfl
  · split
    · rfl
    · exact works_modify t i _ fun _ => rfl

/-- What every turn of `unwant_skipped` keeps holds after `apply_file_priorities`. -/
lemma applyFilePriorities_inv {P : TorrentDownloadedState → List (PeerAddr × BlockRequest) → Prop}
    (t : TorrentDownloadedState) (prios : List FilePriority)
    (h0 : ∀ filePriorities, P { t with filePriorities }.recomputePiecePriority [])
    (hstep : ∀ t cancels i, P t cancels → P (t.unwantPiece cancels i).1 (t.unwantPiece cancels i).2) :
    P (t.applyFilePriorities prios).1 (t.applyFilePriorities prios).2 := by
  unfold applyFilePriorities unwantSkipped
  exact foldlRecOn (motive := fun x : _ × _ => P x.1 x.2) _ _ (h0 _) fun x hx i _ =>
    hstep x.1 x.2 i hx

lemma applyFilePriorities_works (prios : List FilePriority) :
    (t.applyFilePriorities prios).1.works = t.works :=
  applyFilePriorities_inv (P := fun t' _ => t'.works = t.works) t prios (fun _ => rfl)
    fun t' cancels i h => (t'.unwantPiece_works i cancels).trans h

lemma installContent_works (torrent : Torrent) (sequential : Bool) (prios : List FilePriority) :
    (t.installContent torrent sequential prios).1.works = t.works :=
  applyFilePriorities_works _ prios

lemma indexed_iff :
    t.Indexed ↔ ∀ (i : Nat) (w : PieceWork), t.works[i]? = some w → w.index = i := by
  simp only [Indexed, works, flagsAt, getElem?_map, map_eq_some_iff]
  constructor
  · rintro h i _ ⟨pw, hpw, rfl⟩
    exact h i pw.flags ⟨pw, hpw, rfl⟩
  · rintro h i _ ⟨pw, hpw, rfl⟩
    exact h i pw.pieceWork ⟨pw, hpw, rfl⟩

/-- Whether the pieces stand where their indices say depends on the torrent alone. -/
lemma Indexed.of_works {t t' : TorrentDownloadedState} (h : t.Indexed)
    (hw : t'.works = t.works) : t'.Indexed := by
  rw [indexed_iff, hw]
  exact t.indexed_iff.1 h

lemma flagsAt_new (pieces : List PieceWorkState) :
    (new pieces).flagsAt j = pieces[j]?.map PieceWorkState.flags := rfl

end TorrentDownloadedState

lemma Torrent.piecesOfWork_flagsAt {t : Torrent} {i : Nat} {f : PieceFlags}
    (h : (TorrentDownloadedState.new t.piecesOfWork).flagsAt i = some f) :
    f.work.index = i ∧ f.downloaded = false ∧ f.writeClaimed = false ∧
      t.pieceHashes[i]? = some f.work.hash := by
  rw [TorrentDownloadedState.flagsAt_new, Torrent.piecesOfWork, getElem?_mapIdx,
    Option.map_map, map_eq_some_iff] at h
  obtain ⟨hash, hh, rfl⟩ := h
  exact ⟨rfl, rfl, rfl, hh⟩

end BitRev
