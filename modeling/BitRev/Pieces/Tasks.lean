import BitRev.Framework.Growth
import BitRev.Pieces.Pipeline
import BitRev.Pieces.Requests

/-!
# All that happens to the pieces of a torrent

The pipeline together with the other tasks that use the same table: the reservations of the peers'
requesters, web seeds, changes of the file priorities, and a recheck. The code between two awaits
is one step.

`Rewrites` says what an operation that stores no chunk may do to a piece: its chunks are all kept
or all cleared, and with them kept it stays owned. Only a `Piece` message and a web seed's answer
are not of this kind.
-/

namespace BitRev

/-- The peers whose chunks `chunk_to_buf` copies into the buffer. -/
def PieceWorkState.copiedPeers (pw : PieceWorkState) : List PeerAddr :=
  (pw.chuncks.filter fun c => c.start + c.buf.length ≤ pw.pieceWork.length).map (·.peer)

structure PieceTasks where
  pipeline : Pipeline
  /-- The blocks of the `Piece` messages so far, without those of pieces whose chunks have been
  cleared since. -/
  received : List BlockRequest := []
  /-- For each buffer that is being hashed, the peers whose chunks were copied into it. -/
  copied : List (List PeerAddr) := []

inductive TaskAct where
  | pipeline (a : PipelineAct)
  | reserve (index : Nat) (peer : PeerAddr)
  | release (index : Nat) (peer : PeerAddr)
  /-- A peer is snubbed, or gone if its chunks are cleared. -/
  | releasePeer (peer : PeerAddr) (clearChunks : Bool)
  /-- A web seed gives up. -/
  | releasePiece (index : Nat)
  /-- A web seed has the whole piece. -/
  | webSeed (peer : PeerAddr) (index : Nat) (buf : Bytes)
  | priorities (prios : List FilePriority)
  /-- A recheck begins. -/
  | recheck
  /-- The recheck finds a piece on disk. -/
  | recheckOk (index : Nat)

namespace Pipeline

section

variable (sha1 : Bytes → Digest)

/-- `fetch_reserved` once the data of the piece is there. -/
def onWebSeed (p : Pipeline) (peer : PeerAddr) (index : Nat) (buf : Bytes) : Pipeline :=
  match (p.table.setChuncks index 0 buf peer).1.setDownloadedIfAllChunks index with
  | (t, none) => { p with table := t.releaseReservation index peer }
  | (t, some pw) =>
    if sha1 pw.chunkToBuf = pw.pieceWork.hash then
      let piece : FullPiece := ⟨index, pw.pieceWork.length, pw.chunkToBuf⟩
      let (t, claimed) := t.claimWrite index
      if claimed then
        { p with table := (t.clearPieceChunks index).releaseReservation index peer
                 queue := p.queue ++ [piece], passed := p.passed ++ [piece] }
      else { p with table := t.releaseReservation index peer, passed := p.passed ++ [piece] }
    else { p with table := (t.removeDownloaded index).releasePiece index }

end

end Pipeline

namespace PieceTasks

def table (s : PieceTasks) : TorrentDownloadedState := s.pipeline.table

/-- The chunks of the block's piece have not been cleared. -/
def uncleared (t : TorrentDownloadedState) (req : BlockRequest) : Bool :=
  (t.pieces[req.index]?.map fun pw => decide (pw.chuncks ≠ [])).getD false

def setPipeline (s : PieceTasks) (p : Pipeline) : PieceTasks :=
  { s with pipeline := p, received := s.received.filter (uncleared p.table) }

def setTable (s : PieceTasks) (t : TorrentDownloadedState) : PieceTasks :=
  s.setPipeline { s.pipeline with table := t }

def note (s : PieceTasks) : PipelineAct → PieceTasks
  | .piece peer index start data =>
    { s with
      received := s.received ++ [⟨index, start, data.length % 2 ^ 32⟩]
      copied := s.copied ++
        (((s.pipeline.receive peer index start data).setDownloadedIfAllChunks index).2.map
          PieceWorkState.copiedPeers).toList }
  | .verified n _ => { s with copied := s.copied.eraseIdx n }
  | .recv | .wrote _ | .snapshot => s

section Step

variable (sha1 : Bytes → Digest)

def step (s : PieceTasks) : TaskAct → Option PieceTasks
  | .pipeline a => (s.pipeline.step sha1 a).map (s.note a).setPipeline
  | .reserve index peer => (s.table.tryReservePiece index peer).map s.setTable
  | .release index peer => some (s.setTable (s.table.releaseReservation index peer))
  | .releasePeer peer clearChunks =>
    some (s.setTable (s.table.releasePeerReservations peer clearChunks))
  | .releasePiece index => some (s.setTable (s.table.releasePiece index))
  | .webSeed peer index buf =>
    -- data of another length is an error of the server
    if s.table.pieces[index]?.map (·.pieceWork.length) = some buf.length ∧ buf ≠ [] then
      some (s.setPipeline (s.pipeline.onWebSeed sha1 peer index buf))
    else none
  | .priorities prios => some (s.setTable (s.table.applyFilePriorities prios).1)
  | .recheck => some (s.setTable s.table.clearAllDownloaded)
  | .recheckOk index => some (s.setTable (s.table.markDownloaded index))

end Step

def start (t : Torrent) (sequential : Bool) (priorities : List FilePriority) (bits : List Bool) :
    PieceTasks :=
  { pipeline := .resumed t sequential priorities bits }

end PieceTasks

/-! ## Operations that store no chunk -/

/-- The chunks of the piece are all cleared, or all kept; kept chunks leave it owned. -/
structure PieceWorkState.Rewritten (pw pw' : PieceWorkState) : Prop where
  work : pw'.pieceWork = pw.pieceWork
  chuncks : pw'.chuncks = [] ∨
    (pw'.chuncks = pw.chuncks ∧ (pw.downloaded → pw'.downloaded))

namespace TorrentDownloadedState

def Rewrites (t t' : TorrentDownloadedState) : Prop :=
  ∀ j : Nat, Option.Rel PieceWorkState.Rewritten t.pieces[j]? t'.pieces[j]?

variable {t t' t'' : TorrentDownloadedState}

lemma rewritten_refl (pw : PieceWorkState) : pw.Rewritten pw := ⟨rfl, .inr ⟨rfl, id⟩⟩

lemma rewritten_trans {pw pw' pw'' : PieceWorkState} (h : pw.Rewritten pw')
    (h' : pw'.Rewritten pw'') : pw.Rewritten pw'' := by
  refine ⟨h'.work.trans h.work, ?_⟩
  rcases h'.chuncks with hnil | ⟨hsame, hd⟩
  · exact .inl hnil
  · rcases h.chuncks with hnil | ⟨hsame', hd'⟩
    · exact .inl (hsame.trans hnil)
    · exact .inr ⟨hsame.trans hsame', fun h => hd (hd' h)⟩

lemma Rewrites.refl (t : TorrentDownloadedState) : Rewrites t t :=
  fun _ => Growth.refl rewritten_refl _

lemma Rewrites.trans (h : Rewrites t t') (h' : Rewrites t' t'') : Rewrites t t'' :=
  fun j => Growth.trans rewritten_trans (h j) (h' j)

lemma Rewrites.of_pieces (h : Rewrites t t'') (hp : t.pieces = t'.pieces) : Rewrites t' t'' :=
  fun j => hp ▸ h j

/-- What a piece of the new table was before. -/
lemma Rewrites.of_some (h : Rewrites t t') {j : Nat} {pw' : PieceWorkState}
    (hpw' : t'.pieces[j]? = some pw') : ∃ pw, t.pieces[j]? = some pw ∧ pw.Rewritten pw' :=
  Growth.of_some (hpw' ▸ h j)

lemma Rewrites.works (h : Rewrites t t') : t'.works = t.works := by
  refine List.ext_getElem? fun j => ?_
  have hj := h j
  rw [TorrentDownloadedState.works, TorrentDownloadedState.works, List.getElem?_map,
    List.getElem?_map]
  generalize t.pieces[j]? = x at hj ⊢
  generalize t'.pieces[j]? = y at hj ⊢
  cases hj with
  | none => rfl
  | some hj => exact congrArg some hj.work

lemma rewrites_modify (i : Nat) {f : PieceWorkState → PieceWorkState}
    (hp : t'.pieces = t.pieces.modify i f) (hf : ∀ pw : PieceWorkState, pw.Rewritten (f pw)) :
    Rewrites t t' :=
  fun _ => hp ▸ Growth.modify rewritten_refl _ fun _ => hf

lemma rewrites_map {f : PieceWorkState → PieceWorkState} (hp : t'.pieces = t.pieces.map f)
    (hf : ∀ pw : PieceWorkState, pw.Rewritten (f pw)) : Rewrites t t' :=
  fun j => hp ▸ Growth.map _ hf j

lemma tryReservePiece_rewrites {index : Nat} {peer : PeerAddr}
    (h : t.tryReservePiece index peer = some t') : Rewrites t t' := by
  unfold tryReservePiece at h
  split at h
  · cases h
  · split_ifs at h
    cases h
    exact rewrites_modify index rfl fun pw => ⟨rfl, .inr ⟨rfl, id⟩⟩

variable (t : TorrentDownloadedState)

section

variable (index : Nat)

lemma releaseReservation_rewrites (peer : PeerAddr) :
    Rewrites t (t.releaseReservation index peer) := by
  refine rewrites_modify index rfl fun pw => ?_
  split
  · refine ⟨rfl, ?_⟩
    cases hd : pw.downloaded
    · exact .inl rfl
    · exact .inr ⟨rfl, id⟩
  · exact rewritten_refl pw

lemma releasePeerReservations_rewrites (peer : PeerAddr) (clear : Bool) :
    Rewrites t (t.releasePeerReservations peer clear) := by
  refine rewrites_map rfl fun pw => ?_
  split
  · refine ⟨rfl, ?_⟩
    dsimp only
    split
    · exact .inl rfl
    · exact .inr ⟨rfl, id⟩
  · exact rewritten_refl pw

lemma releasePiece_rewrites : Rewrites t (t.releasePiece index) := by
  refine rewrites_modify index rfl fun pw => ⟨rfl, ?_⟩
  cases hd : pw.downloaded
  · exact .inl rfl
  · exact .inr ⟨rfl, id⟩

lemma removeDownloaded_rewrites : Rewrites t (t.removeDownloaded index) := by
  refine rewrites_map rfl fun pw => ?_
  split
  · exact ⟨rfl, .inl rfl⟩
  · exact rewritten_refl pw

lemma clearPieceChunks_rewrites : Rewrites t (t.clearPieceChunks index) :=
  rewrites_modify index rfl fun _ => ⟨rfl, .inl rfl⟩

lemma claimWrite_rewrites : Rewrites t (t.claimWrite index).1 :=
  rewrites_modify index rfl fun _ => ⟨rfl, .inr ⟨rfl, id⟩⟩

lemma markDownloaded_rewrites : Rewrites t (t.markDownloaded index) :=
  rewrites_modify index rfl fun _ => ⟨rfl, .inr ⟨rfl, fun _ => rfl⟩⟩

end

lemma foldl_rewrites {f : TorrentDownloadedState → Nat → TorrentDownloadedState}
    (hf : ∀ t i, Rewrites t (f t i)) (l : List Nat) (t : TorrentDownloadedState) :
    Rewrites t (l.foldl f t) :=
  List.foldlRecOn l f (.refl t) fun t₁ h i _ => h.trans (hf t₁ i)

lemma clearAllDownloaded_rewrites : Rewrites t t.clearAllDownloaded :=
  foldl_rewrites removeDownloaded_rewrites _ t

lemma applyBitfield_rewrites (bits : List Bool) : Rewrites t (t.applyBitfield bits) := by
  refine foldl_rewrites (fun t i => ?_) _ t
  split
  · exact t.markDownloaded_rewrites i
  · exact .refl t

lemma unwantPiece_rewrites (cancels : List (PeerAddr × BlockRequest)) (index : Nat) :
    Rewrites t (t.unwantPiece cancels index).1 := by
  unfold unwantPiece
  split
  · exact .refl t
  · split
    · exact .refl t
    · exact rewrites_modify index rfl fun _ => ⟨rfl, .inl rfl⟩

lemma applyFilePriorities_rewrites (prios : List FilePriority) :
    Rewrites t (t.applyFilePriorities prios).1 :=
  -- the loop starts from a table with the same pieces
  applyFilePriorities_inv (P := fun t' _ => Rewrites t t') t prios (fun _ => Rewrites.of_pieces
    (.refl _) rfl) fun t' cancels i h => h.trans (t'.unwantPiece_rewrites cancels i)

lemma installContent_rewrites (torrent : Torrent) (sequential : Bool) (prios : List FilePriority) :
    Rewrites t (t.installContent torrent sequential prios).1 := by
  refine Rewrites.of_pieces (applyFilePriorities_rewrites _ prios) ?_
  rfl

end TorrentDownloadedState

namespace Pipeline

open TorrentDownloadedState

variable {sha1 : Bytes → Digest} {p p' : Pipeline}

lemma onVerified_rewrites (p : Pipeline) (v : Verification) (ok : Bool) :
    Rewrites p.table (p.onVerified v ok).table := by
  unfold onVerified
  split
  · dsimp only
    split
    · exact (claimWrite_rewrites _ _).trans (clearPieceChunks_rewrites _ _)
    · exact claimWrite_rewrites _ _
  · exact (removeDownloaded_rewrites _ _).trans (releasePiece_rewrites _ _)

/-- Every step of the pipeline but a `Piece` message. -/
lemma step_rewrites {a : PipelineAct}
    (ha : ∀ peer index start data, a ≠ .piece peer index start data)
    (hs : p.step sha1 a = some p') : Rewrites p.table p'.table := by
  cases a with
  | piece peer index start data => exact absurd rfl (ha peer index start data)
  | verified n joined =>
    obtain ⟨v, -, rfl⟩ := Option.map_eq_some_iff.1 hs
    exact onVerified_rewrites { p with verifying := p.verifying.eraseIdx n } v _
  | recv =>
    simp only [step] at hs
    split at hs <;> cases hs
    exact .refl _
  | wrote ok =>
    obtain ⟨piece, -, rfl⟩ := Option.map_eq_some_iff.1 hs
    unfold onWrote
    split
    · exact .refl _
    · exact removeDownloaded_rewrites _ _
  | snapshot =>
    cases hs
    exact .refl _

end Pipeline

end BitRev
