import BitRev.Pieces.Chunks

/-!
# Who is blamed for a piece that fails its hash

The buffer of a piece is assembled when its chunks cover it, and hashed while the handler awaits;
if it fails, `piece_contributors` looks at the chunks of the piece as they are then. The peers whose
chunks were copied into the buffer are noted in `PieceTasks.copied`.

* `blame_exact`: if the chunks of a piece are left alone while it is hashed, the peers that are
  blamed are those whose chunks were copied, each once.
-/

namespace BitRev

open TorrentDownloadedState PieceWorkState Pipeline List
open Option hiding or_assoc

/-! ## Chunks that cover a piece -/

/-- Of the spans that cover a piece none ends past its end. -/
lemma le_of_piecesCover {length covered : Nat} {spans : List (Nat × Nat)}
    (hlen : length < 2 ^ 32 - 1) (h : piecesCover length covered spans) :
    covered ≤ length ∧ ∀ x ∈ spans, x.1 + x.2 ≤ length := by
  induction spans generalizing covered with
  | nil =>
    simp only [piecesCover, decide_eq_true_eq] at h
    exact ⟨h.le, by simp⟩
  | cons x spans ih =>
    simp only [piecesCover] at h
    split_ifs at h with hstart
    obtain ⟨hle, hrest⟩ := ih h
    rw [satAddU32] at hle
    exact ⟨by omega, forall_mem_cons.2 ⟨by omega, hrest⟩⟩

variable {pw : PieceWorkState}

lemma mem_copiedPeers (hlen : pw.pieceWork.length < 2 ^ 32 - 1)
    (hsize : ∀ c ∈ pw.chuncks, c.length = c.buf.length) (h : pw.pieceChunksCover)
    (peer : PeerAddr) : peer ∈ pw.copiedPeers ↔ ∃ c ∈ pw.chuncks, c.peer = peer := by
  have hfits : ∀ c ∈ pw.chuncks, c.start + c.buf.length ≤ pw.pieceWork.length := by
    intro c hc
    have := (le_of_piecesCover hlen h).2 (c.start, c.length)
      ((mem_insertionSort _).2 (mem_map_of_mem hc))
    rwa [hsize c hc] at this
  simp only [copiedPeers, List.mem_map, mem_filter, decide_eq_true_eq]
  constructor
  · rintro ⟨c, ⟨hc, -⟩, hp⟩
    exact ⟨c, hc, hp⟩
  · rintro ⟨c, hc, hp⟩
    exact ⟨c, ⟨hc, hfits c hc⟩, hp⟩

lemma complete_of_downloaded (h : pw.downloaded) : pw.complete = pw := by
  obtain ⟨work, chuncks, downloaded, reserved, claimed⟩ := pw
  obtain rfl : downloaded = true := h
  rfl

/-- The loop of `piece_contributors`: a peer is added unless it is there. -/
lemma contributors_fold (l : List Chunk) (ps : List PeerAddr) (hps : ps.Nodup) :
    (l.foldl (fun ps c => if c.peer ∈ ps then ps else ps ++ [c.peer]) ps).Nodup ∧
    ∀ peer, peer ∈ l.foldl (fun ps c => if c.peer ∈ ps then ps else ps ++ [c.peer]) ps ↔
      peer ∈ ps ∨ ∃ c ∈ l, c.peer = peer := by
  induction l generalizing ps with
  | nil => exact ⟨hps, by simp⟩
  | cons c l ih =>
    rw [foldl_cons]
    split_ifs with hmem
    · obtain ⟨hnodup, hiff⟩ := ih ps hps
      refine ⟨hnodup, fun peer => (hiff peer).trans ?_⟩
      simp only [mem_cons, exists_eq_or_imp]
      refine ⟨Or.imp_right .inr, ?_⟩
      rintro (hp | rfl | hp)
      · exact .inl hp
      · exact .inl hmem
      · exact .inr hp
    · have hadd : (ps ++ [c.peer]).Nodup :=
        hps.append (nodup_singleton _) (by simpa using hmem)
      obtain ⟨hnodup, hiff⟩ := ih _ hadd
      refine ⟨hnodup, fun peer => (hiff peer).trans ?_⟩
      simp only [mem_append, mem_cons, not_mem_nil, false_or, exists_eq_or_imp,
        or_assoc, eq_comm (a := peer)]

lemma pieceContributors_spec {t : TorrentDownloadedState} {i : Nat} (hpw : t.pieces[i]? = some pw) :
    (t.pieceContributors i).Nodup ∧
      ∀ peer, peer ∈ t.pieceContributors i ↔ ∃ c ∈ pw.chuncks, c.peer = peer := by
  rw [pieceContributors, hpw]
  obtain ⟨hnodup, hiff⟩ := contributors_fold pw.chuncks [] nodup_nil
  exact ⟨hnodup, fun peer => (hiff peer).trans (by simp)⟩

/-! ## Owned pieces keep their chunks -/

/-- An owned piece stays owned and keeps its chunks. -/
def PieceWorkState.Spared (pw pw' : PieceWorkState) : Prop :=
  pw.downloaded → pw'.downloaded ∧ pw'.chuncks = pw.chuncks

namespace TorrentDownloadedState

/-- Owned pieces keep their chunks, apart from piece `i` if that is given. -/
def Spares (i : Option Nat) (t t' : TorrentDownloadedState) : Prop :=
  ∀ j : Nat, i ≠ some j → Option.Rel PieceWorkState.Spared t.pieces[j]? t'.pieces[j]?

variable {t t' t'' : TorrentDownloadedState} {i : Option Nat} {index : Nat}

lemma spared_refl (pw : PieceWorkState) : pw.Spared pw := fun h => ⟨h, rfl⟩

lemma Spares.refl (i : Option Nat) (t : TorrentDownloadedState) : Spares i t t :=
  fun _ _ => Growth.refl spared_refl _

lemma Spares.trans (h : Spares i t t') (h' : Spares i t' t'') : Spares i t t'' := by
  refine fun j hj => Growth.trans (fun h₁ h₂ hd => ?_) (h j hj) (h' j hj)
  obtain ⟨hd', hc⟩ := h₁ hd
  exact ⟨(h₂ hd').1, (h₂ hd').2.trans hc⟩

lemma Spares.but (h : Spares none t t') (i : Option Nat) : Spares i t t' :=
  fun j _ => h j nofun

lemma Spares.of_pieces (h : Spares i t t'') (hp : t.pieces = t'.pieces) : Spares i t' t'' :=
  fun j hj => hp ▸ h j hj

lemma Spares.at (h : Spares i t t') {j : Nat} (hj : i ≠ some j) {pw : PieceWorkState}
    (hpw : t.pieces[j]? = some pw) (hd : pw.downloaded) :
    ∃ pw', t'.pieces[j]? = some pw' ∧ pw'.downloaded ∧ pw'.chuncks = pw.chuncks := by
  obtain ⟨pw', hpw', hspared⟩ := Growth.to_some (hpw ▸ h j hj)
  exact ⟨pw', hpw', hspared hd⟩

lemma spares_modify (i : Option Nat) {f : PieceWorkState → PieceWorkState}
    (hp : t'.pieces = t.pieces.modify index f)
    (hf : i ≠ some index → ∀ pw : PieceWorkState, pw.Spared (f pw)) : Spares i t t' :=
  fun _ hj => hp ▸ Growth.modify spared_refl _ fun hij => hf (hij ▸ hj)

lemma spares_map {f : PieceWorkState → PieceWorkState} (hp : t'.pieces = t.pieces.map f)
    (hf : ∀ pw : PieceWorkState, pw.Spared (f pw)) : Spares none t t' :=
  fun j _ => hp ▸ Growth.map _ hf j

lemma tryReservePiece_spares {peer : PeerAddr} (h : t.tryReservePiece index peer = some t') :
    Spares none t t' := by
  unfold tryReservePiece at h
  split at h
  · cases h
  · split_ifs at h
    cases h
    exact spares_modify none rfl fun _ _ hd => ⟨hd, rfl⟩

section

variable (t : TorrentDownloadedState) (index : Nat)

lemma releaseReservation_spares (peer : PeerAddr) :
    Spares none t (t.releaseReservation index peer) := by
  refine spares_modify none rfl fun _ pw hd => ?_
  split
  · exact ⟨hd, by simp⟩
  · exact ⟨hd, rfl⟩

lemma releasePeerReservations_spares (peer : PeerAddr) (clear : Bool) :
    Spares none t (t.releasePeerReservations peer clear) := by
  refine spares_map rfl fun pw hd => ?_
  split
  · exact ⟨hd, by simp [hd]⟩
  · exact ⟨hd, rfl⟩

lemma releasePiece_spares : Spares none t (t.releasePiece index) :=
  spares_modify none rfl fun _ _ hd => ⟨hd, by simp [hd]⟩

lemma markDownloaded_spares : Spares none t (t.markDownloaded index) :=
  spares_modify none rfl fun _ _ _ => ⟨rfl, rfl⟩

lemma claimWrite_spares : Spares none t (t.claimWrite index).1 :=
  spares_modify none rfl fun _ _ hd => ⟨hd, rfl⟩

lemma clearPieceChunks_spares : Spares (some index) t (t.clearPieceChunks index) :=
  spares_modify (some index) rfl fun hne => absurd rfl hne

end

lemma removeDownloaded_spares (h : t.Indexed) (index : Nat) :
    Spares (some index) t (t.removeDownloaded index) :=
  spares_modify (some index) (removeDownloaded_pieces h index) fun hne => absurd rfl hne

section

variable (t : TorrentDownloadedState)

lemma unwantPiece_spares (cancels : List (PeerAddr × BlockRequest))
    (index : Nat) : Spares none t (t.unwantPiece cancels index).1 := by
  unfold unwantPiece
  split
  · exact .refl none t
  · rename_i pw hpw
    split
    · exact .refl none t
    · rename_i hnot
      -- a piece that is given up is not owned
      intro j _
      rw [getElem?_modify]
      cases hj : t.pieces[j]? with
      | none => exact .none
      | some pw' =>
        refine .some fun hd => ?_
        rcases eq_or_ne index j with rfl | hij
        · cases hpw.symm.trans hj
          simp [hd] at hnot
        · beta_reduce
          rw [if_neg hij]
          exact ⟨hd, rfl⟩

lemma applyFilePriorities_spares (prios : List FilePriority) :
    Spares none t (t.applyFilePriorities prios).1 :=
  applyFilePriorities_inv (P := fun t' _ => Spares none t t') t prios (fun _ => Spares.of_pieces
    (.refl none _) rfl) fun t' cancels i h => h.trans (t'.unwantPiece_spares cancels i)

/-- Every chunk says how long it is. -/
def Sized : Prop :=
  ∀ pw ∈ t.pieces, ∀ c ∈ pw.chuncks, c.length = c.buf.length

end

lemma Sized.rewrites (h : t.Sized) (hr : Rewrites t t') : t'.Sized := by
  intro pw' hpw' c hc
  obtain ⟨j, hj⟩ := getElem?_of_mem hpw'
  obtain ⟨pw, hpw, hrw⟩ := hr.of_some hj
  rcases hrw.chuncks with hnil | ⟨hsame, -⟩
  · rw [hnil] at hc
    cases hc
  · exact h pw (mem_of_getElem? hpw) c (hsame ▸ hc)

/-- The stored chunk says how long it is, if its length fits in 32 bits. -/
lemma Sized.store {pw : PieceWorkState} (h : ∀ c ∈ pw.chuncks, c.length = c.buf.length)
    {index start : Nat} {buf : Bytes} (hbuf : buf.length < 2 ^ 32) {peer : PeerAddr} :
    ∀ c ∈ (pw.store ⟨index, start, buf.length % 2 ^ 32, buf, peer⟩).chuncks,
      c.length = c.buf.length := by
  intro c hc
  unfold PieceWorkState.store at hc
  split at hc
  · exact h c hc
  · exact forall_mem_append.2 ⟨h, forall_mem_singleton.2 (Nat.mod_eq_of_lt hbuf)⟩ c hc

lemma Sized.stores (h : t.Sized) (hi : t.Indexed) (index start : Nat) {buf : Bytes}
    (hbuf : buf.length < 2 ^ 32) (peer : PeerAddr) :
    ((t.setChuncks index start buf peer).1.setDownloadedIfAllChunks index).1.Sized := by
  intro pw' hpw' c hc
  obtain ⟨j, hj⟩ := getElem?_of_mem hpw'
  rw [stored_pieces hi] at hj
  obtain ⟨pw, hpw, rfl⟩ := map_eq_some_iff.1 hj
  have hold := h pw (mem_of_getElem? hpw)
  split at hc
  · exact Sized.store hold hbuf c hc
  · exact hold c hc

lemma stores_spares (h : t.Indexed) (index start : Nat) (buf : Bytes) (peer : PeerAddr) :
    Spares (some index) t
      ((t.setChuncks index start buf peer).1.setDownloadedIfAllChunks index).1 := by
  intro j hj
  rw [stored_pieces h]
  cases t.pieces[j]? with
  | none => exact .none
  | some pw =>
    refine .some fun hd => ?_
    beta_reduce
    rw [if_neg fun hij => hj (congrArg some hij)]
    exact ⟨hd, rfl⟩

end TorrentDownloadedState

namespace Pipeline

variable (sha1 : Bytes → Digest) {p : Pipeline} (hi : p.table.Indexed)

include hi

lemma onVerified_spares (v : Verification) (ok : Bool) :
    Spares (some v.index) p.table (p.onVerified v ok).table := by
  unfold onVerified
  split
  · dsimp only
    split
    · exact ((claimWrite_spares _ _).but _).trans (clearPieceChunks_spares _ _)
    · exact (claimWrite_spares _ _).but _
  · exact (removeDownloaded_spares hi _).trans ((releasePiece_spares _ _).but _)

lemma onPiece_pieces (peer : PeerAddr) (index start : Nat) (data : Bytes) (j : Nat) :
    (p.onPiece peer index start data).table.pieces[j]? = p.table.pieces[j]?.map fun pw =>
      if index = j then
        (pw.store ⟨index, start, data.length % 2 ^ 32, data, peer⟩).complete
      else pw := by
  rw [onPiece_table]
  have hi' : (p.table.noteBlockReceived ⟨index, start, data.length % 2 ^ 32⟩ peer).1.Indexed := hi
  exact stored_pieces hi' index start data peer j

/-- The piece a `Piece` message completes was not owned. -/
lemma receive_full {peer : PeerAddr} {index start : Nat} {data : Bytes} {pw' : PieceWorkState}
    (h : ((p.receive peer index start data).setDownloadedIfAllChunks index).2 = some pw') :
    pw'.pieceChunksCover ∧ ∃ pw, p.table.pieces[index]? = some pw ∧
      pw.downloaded = false ∧
      pw' = pw.store ⟨index, start, data.length % 2 ^ 32, data, peer⟩ := by
  have hi' : (p.table.noteBlockReceived ⟨index, start, data.length % 2 ^ 32⟩ peer).1.Indexed := hi
  rw [setDownloadedIfAllChunks_snd, receive, setChuncks_pieces hi', getElem?_modify,
    filter_eq_some_iff] at h
  obtain ⟨hmap, hfull⟩ := h
  obtain ⟨pw, hpw, rfl⟩ := map_eq_some_iff.1 hmap
  simp only [if_true, store_downloaded, Bool.and_eq_true, Bool.not_eq_true'] at hfull ⊢
  exact ⟨hfull.2, pw, hpw, hfull.1, rfl⟩

lemma onWebSeed_spares (peer : PeerAddr) (index : Nat) (buf : Bytes) :
    Spares (some index) p.table (p.onWebSeed sha1 peer index buf).table := by
  have hst : Spares (some index) p.table (p.fetched peer index buf).1 :=
    stores_spares hi index 0 buf peer
  refine hst.trans ?_
  have hi' : (p.fetched peer index buf).1.Indexed :=
    hi.of_works (p.fetched_works peer index buf)
  obtain ⟨-, ht⟩ | ⟨-, ht | ht | ht⟩ := p.onWebSeed_cases sha1 peer index buf
  · rw [ht]
    exact (releaseReservation_spares _ _ _).but _
  · rw [ht]
    exact (((claimWrite_spares _ _).but _).trans (clearPieceChunks_spares _ _)).trans
      ((releaseReservation_spares _ _ _).but _)
  · rw [ht]
    exact ((claimWrite_spares _ _).trans (releaseReservation_spares _ _ _)).but _
  · rw [ht]
    exact (removeDownloaded_spares hi' _).trans ((releasePiece_spares _ _).but _)

end Pipeline

lemma Pipeline.onPiece_verifying (p : Pipeline) (peer : PeerAddr) (index start : Nat)
    (data : Bytes) :
    (p.onPiece peer index start data).verifying = p.verifying ++
      (((p.receive peer index start data).setDownloadedIfAllChunks index).2.map fun pw =>
        (⟨index, pw.pieceWork.length, pw.pieceWork.hash, pw.chunkToBuf⟩ : Verification)).toList := by
  unfold onPiece
  split
  · rename_i heq
    simp [heq]
  · rename_i heq
    simp [heq]

lemma Pipeline.onVerified_verifying (p : Pipeline) (v : Verification) (ok : Bool) :
    (p.onVerified v ok).verifying = p.verifying := by
  unfold onVerified
  split
  · dsimp only
    split <;> rfl
  · rfl

lemma Pipeline.onWebSeed_verifying (sha1 : Bytes → Digest) (p : Pipeline) (peer : PeerAddr)
    (index : Nat) (buf : Bytes) : (p.onWebSeed sha1 peer index buf).verifying = p.verifying := by
  unfold onWebSeed
  split
  · rfl
  · split
    · dsimp only
      split <;> rfl
    · rfl

namespace PieceTasks

variable {sha1 : Bytes → Digest} {s s' : PieceTasks}

/-- The chunks of a piece that is being hashed are left alone: a `Piece` message for it is a
duplicate, no web seed answers for it, no failed write of it comes in between, and no recheck
begins. A message has a length of 32 bits. -/
def Undisturbed (s : PieceTasks) : TaskAct → Prop
  | .pipeline (.piece _ index start data) => data.length < 2 ^ 32 ∧
    ∀ v ∈ s.pipeline.verifying, v.index = index →
      ∀ pw ∈ s.table.pieces[index]?, pw.chuncks.any (·.start = start)
  | .pipeline (.wrote false) =>
    ∀ piece ∈ s.pipeline.writing, ∀ v ∈ s.pipeline.verifying, v.index ≠ piece.index
  | .webSeed _ index _ => ∀ v ∈ s.pipeline.verifying, v.index ≠ index
  | .recheck => s.pipeline.verifying = []
  | _ => True

instance (s : PieceTasks) : DecidablePred s.Undisturbed
  | .pipeline a =>
    match a with
    | .piece _ index start data => inferInstanceAs (Decidable (data.length < 2 ^ 32 ∧
      ∀ v ∈ s.pipeline.verifying, v.index = index →
        ∀ pw ∈ s.table.pieces[index]?, pw.chuncks.any (·.start = start)))
    | .wrote false => inferInstanceAs (Decidable
      (∀ piece ∈ s.pipeline.writing, ∀ v ∈ s.pipeline.verifying, v.index ≠ piece.index))
    | .verified _ _ | .recv | .wrote true | .snapshot => isTrue trivial
  | .webSeed _ index _ =>
    inferInstanceAs (Decidable (∀ v ∈ s.pipeline.verifying, v.index ≠ index))
  | .recheck => inferInstanceAs (Decidable (s.pipeline.verifying = []))
  | .reserve _ _ | .release _ _ | .releasePeer _ _ | .releasePiece _ | .priorities _
  | .recheckOk _ => isTrue trivial

/-- What holds while the chunks of pieces that are hashed are left alone. -/
structure Blamable (s : PieceTasks) : Prop where
  indexed : s.table.Indexed
  short : ∀ w ∈ s.table.works, w.length < 2 ^ 32 - 1
  sized : s.table.Sized
  distinct : (s.pipeline.verifying.map (·.index)).Nodup
  noted : s.copied.length = s.pipeline.verifying.length
  copied : ∀ (n : Nat) (v : Verification) (peers : List PeerAddr),
    s.pipeline.verifying[n]? = some v → s.copied[n]? = some peers →
    ∃ pw, s.table.pieces[v.index]? = some pw ∧ pw.downloaded ∧
      ∀ peer, peer ∈ peers ↔ ∃ c ∈ pw.chuncks, c.peer = peer

namespace Blamable

lemma of_spares (h : s.Blamable) {i : Option Nat} (hw : s'.table.works = s.table.works)
    (hz : s'.table.Sized) (hs : Spares i s.table s'.table)
    (hv : s'.pipeline.verifying = s.pipeline.verifying) (hc : s'.copied = s.copied)
    (hi : ∀ v ∈ s.pipeline.verifying, i ≠ some v.index) : s'.Blamable where
  indexed := h.indexed.of_works hw
  short := hw ▸ h.short
  sized := hz
  distinct := hv ▸ h.distinct
  noted := by rw [hv, hc, h.noted]
  copied n v peers hn hp := by
    rw [hv] at hn
    rw [hc] at hp
    obtain ⟨pw, hpw, hd, hpeers⟩ := h.copied n v peers hn hp
    obtain ⟨pw', hpw', hd', hchunks⟩ := hs.at (hi v (mem_of_getElem? hn)) hpw hd
    exact ⟨pw', hpw', hd', hchunks ▸ hpeers⟩

lemma setTable (h : s.Blamable) {t : TorrentDownloadedState}
    (hr : Rewrites s.table t) (hs : Spares none s.table t) : (s.setTable t).Blamable :=
  h.of_spares hr.works (h.sized.rewrites hr) hs rfl rfl fun _ _ => by simp

/-- The handler of one buffer goes on. -/
lemma eraseIdx (h : s.Blamable) (n : Nat) : Blamable { s with
      pipeline := { s.pipeline with verifying := s.pipeline.verifying.eraseIdx n }
      copied := s.copied.eraseIdx n } where
  __ := h
  distinct := h.distinct.sublist ((eraseIdx_sublist _ n).map _)
  noted := by
    simp only [length_eraseIdx, h.noted]
  copied m v peers hm hp := by
    simp only [getElem?_eraseIdx] at hm hp
    split_ifs at hm with hlt
    · rw [if_pos hlt] at hp
      exact h.copied m v peers hm hp
    · rw [if_neg hlt] at hp
      exact h.copied (m + 1) v peers hm hp

/-- No other buffer is of the same piece. -/
lemma ne_of_mem_eraseIdx (h : s.Blamable) {n : Nat} {v v' : Verification}
    (hv : s.pipeline.verifying[n]? = some v) (hv' : v' ∈ s.pipeline.verifying.eraseIdx n) :
    v'.index ≠ v.index := by
  obtain ⟨m, hne, hm⟩ := mem_eraseIdx_iff_getElem?.1 hv'
  intro heq
  have hlt : m < (s.pipeline.verifying.map (·.index)).length := by
    rw [length_map]
    exact (List.getElem?_eq_some_iff.1 hm).1
  exact hne ((getElem?_inj hlt h.distinct).1 (by simp [hm, hv, heq]))

variable {v : Verification} {peer : PeerAddr}

variable (h : s.Blamable)
include h

lemma verified {n : Nat} (hv : s.pipeline.verifying[n]? = some v) (ok joined : Bool) :
    ((s.note (.verified n joined)).setPipeline
      ({ s.pipeline with verifying := s.pipeline.verifying.eraseIdx n }.onVerified v
        ok)).Blamable := by
  have h' := h.eraseIdx n
  have hr := onVerified_rewrites
    { s.pipeline with verifying := s.pipeline.verifying.eraseIdx n } v ok
  refine h'.of_spares hr.works (h'.sized.rewrites hr) (onVerified_spares h'.indexed v ok)
    (onVerified_verifying _ v ok) rfl fun v' hv' heq => ?_
  exact h.ne_of_mem_eraseIdx hv hv' (some.inj heq).symm

lemma webSeed {index : Nat} {buf : Bytes} (hok : s.Undisturbed (.webSeed peer index buf))
    (hlen : s.table.pieces[index]?.map (·.pieceWork.length) = some buf.length) :
    (s.setPipeline (s.pipeline.onWebSeed sha1 peer index buf)).Blamable := by
  obtain ⟨pw, hpw, hlength⟩ := map_eq_some_iff.1 hlen
  have hshort := h.short _ (mem_map_of_mem (mem_of_getElem? hpw))
  have hr := s.pipeline.onWebSeed_rewrites sha1 peer index buf
  refine h.of_spares (hr.works.trans (s.pipeline.fetched_works peer index buf)) ?_
    (onWebSeed_spares sha1 h.indexed peer index buf)
    (onWebSeed_verifying sha1 s.pipeline peer index buf) rfl fun v hv heq => ?_
  · exact (h.sized.stores h.indexed index 0 (by omega) peer).rewrites hr
  · exact hok v hv (some.inj heq).symm

/-- A piece that is hashed is owned. -/
lemma owned (hv : v ∈ s.pipeline.verifying) :
    ∃ pw, s.table.pieces[v.index]? = some pw ∧ pw.downloaded := by
  obtain ⟨n, hn⟩ := getElem?_of_mem hv
  have hlt : n < s.copied.length := h.noted ▸ (List.getElem?_eq_some_iff.1 hn).1
  obtain ⟨pw, hpw, hd, -⟩ := h.copied n v _ hn (getElem?_eq_getElem hlt)
  exact ⟨pw, hpw, hd⟩

lemma piece_hashed {index start : Nat} {data : Bytes}
    (hok : s.Undisturbed (.pipeline (.piece peer index start data))) (hv : v ∈ s.pipeline.verifying)
    {pw : PieceWorkState} (hpw : s.table.pieces[v.index]? = some pw) (hd : pw.downloaded) :
    (s.pipeline.onPiece peer index start data).table.pieces[v.index]? = some pw := by
  have hpw' : s.pipeline.table.pieces[v.index]? = some pw := hpw
  rw [onPiece_pieces h.indexed, hpw', map_some]
  rcases eq_or_ne index v.index with heq | hne
  · rw [if_pos heq, store, if_pos (hok.2 v hv heq.symm pw (heq ▸ hpw)), complete_of_downloaded hd]
  · rw [if_neg hne]

lemma piece {index start : Nat} {data : Bytes}
    (hok : s.Undisturbed (.pipeline (.piece peer index start data))) :
    ((s.note (.piece peer index start data)).setPipeline
      (s.pipeline.onPiece peer index start data)).Blamable := by
  have hstep : s.pipeline.step (fun _ => default) (.piece peer index start data) =
    some (s.pipeline.onPiece peer index start data) := rfl
  have hworks : (s.pipeline.onPiece peer index start data).table.works = s.table.works :=
    step_works hstep
  refine ⟨h.indexed.of_works hworks, hworks ▸ h.short, ?_, ?_, ?_, fun n v peers hn hp => ?_⟩
  · show (s.pipeline.onPiece peer index start data).table.Sized
    have hnoted : (s.table.noteBlockReceived
      ⟨index, start, data.length % 2 ^ 32⟩ peer).1.Sized := h.sized
    rw [onPiece_table]
    exact hnoted.stores h.indexed index start hok.1 peer
  · show ((s.pipeline.onPiece peer index start data).verifying.map (·.index)).Nodup
    rw [onPiece_verifying]
    cases hfull : ((s.pipeline.receive peer index start data).setDownloadedIfAllChunks index).2 with
    | none => simpa using h.distinct
    | some pw' =>
      obtain ⟨-, pw, hpw, hd, -⟩ := receive_full h.indexed hfull
      simp only [map_some, toList_some, map_append, map_singleton]
      rw [nodup_append]
      refine ⟨h.distinct, nodup_singleton _, fun i hi j hj heq => ?_⟩
      -- the pieces that are hashed are owned already
      obtain ⟨v, hv, rfl⟩ := List.mem_map.1 hi
      obtain ⟨pw₁, hpw₁, hd₁⟩ := h.owned hv
      rw [heq, mem_singleton.1 hj] at hpw₁
      rw [some.inj (hpw.symm.trans hpw₁), hd₁] at hd
      cases hd
  · show (s.note (.piece peer index start data)).copied.length =
      (s.pipeline.onPiece peer index start data).verifying.length
    rw [onPiece_verifying, note, length_append, length_append, h.noted]
    cases ((s.pipeline.receive peer index start data).setDownloadedIfAllChunks index).2 <;> rfl
  · change (s.pipeline.onPiece peer index start data).verifying[n]? = some v at hn
    change (s.copied ++ _)[n]? = some peers at hp
    show ∃ pw, (s.pipeline.onPiece peer index start data).table.pieces[v.index]? = some pw ∧ _
    rw [onPiece_verifying] at hn
    rcases lt_or_ge n s.pipeline.verifying.length with hlt | hge
    · rw [getElem?_append_left hlt] at hn
      rw [getElem?_append_left (h.noted ▸ hlt)] at hp
      obtain ⟨pw, hpw, hd, hpeers⟩ := h.copied n v peers hn hp
      exact ⟨pw, h.piece_hashed hok (mem_of_getElem? hn) hpw hd, hd, hpeers⟩
    · rw [getElem?_append_right hge] at hn
      rw [getElem?_append_right (h.noted ▸ hge)] at hp
      cases hfull :
          ((s.pipeline.receive peer index start data).setDownloadedIfAllChunks index).2 with
      | none => simp [hfull] at hn
      | some pw' =>
        obtain ⟨hcover, pw, hpw, -, heq⟩ := receive_full h.indexed hfull
        have hsized : ∀ c ∈ pw'.chuncks, c.length = c.buf.length :=
          heq ▸ Sized.store (h.sized pw (mem_of_getElem? hpw)) hok.1
        have hshort : pw'.pieceWork.length < 2 ^ 32 - 1 := by
          rw [heq, store_pieceWork]
          exact h.short _ (mem_map_of_mem (mem_of_getElem? hpw))
        simp only [hfull, map_some, toList_some, getElem?_singleton,
          ite_none_right_eq_some, some.injEq] at hn hp
        obtain ⟨-, rfl⟩ := hn
        obtain ⟨-, rfl⟩ := hp
        refine ⟨pw'.complete, ?_, ?_, mem_copiedPeers hshort hsized hcover⟩
        · rw [onPiece_pieces h.indexed, hpw, map_some, if_pos rfl, heq]
        · simp [complete, hcover]

lemma step {a : TaskAct} (hok : s.Undisturbed a) (hs : s.step sha1 a = some s') : s'.Blamable := by
  cases a with
  | pipeline a =>
    obtain ⟨p', hp, rfl⟩ := map_eq_some_iff.1 hs
    cases a with
    | piece peer index start data =>
      cases hp
      exact h.piece hok
    | verified n joined =>
      obtain ⟨v, hv, rfl⟩ := map_eq_some_iff.1 hp
      exact h.verified hv _ joined
    | recv =>
      simp only [Pipeline.step] at hp
      split at hp
      · cases hp
        exact h.of_spares rfl h.sized (.refl none _) rfl rfl fun _ _ => by simp
      · cases hp
    | wrote ok =>
      obtain ⟨piece, hpiece, rfl⟩ := map_eq_some_iff.1 hp
      cases ok with
      | true => exact h.of_spares rfl h.sized (.refl none _) rfl rfl fun _ _ => by simp
      | false =>
        have hr := removeDownloaded_rewrites s.table piece.index
        refine h.of_spares hr.works (h.sized.rewrites hr)
          (removeDownloaded_spares h.indexed piece.index) rfl rfl fun v hv heq => ?_
        exact hok piece hpiece v hv (some.inj heq).symm
    | snapshot =>
      cases hp
      exact h.of_spares rfl h.sized (.refl none _) rfl rfl fun _ _ => by simp
  | reserve index peer =>
    obtain ⟨t, ht, rfl⟩ := map_eq_some_iff.1 hs
    exact h.setTable (tryReservePiece_rewrites ht) (tryReservePiece_spares ht)
  | release index peer =>
    cases hs
    exact h.setTable (releaseReservation_rewrites _ _ _) (releaseReservation_spares _ _ _)
  | releasePeer peer clearChunks =>
    cases hs
    exact h.setTable (releasePeerReservations_rewrites _ _ _) (releasePeerReservations_spares _ _ _)
  | releasePiece index =>
    cases hs
    exact h.setTable (releasePiece_rewrites _ _) (releasePiece_spares _ _)
  | webSeed peer index buf =>
    simp only [PieceTasks.step, ite_none_right_eq_some, some.injEq] at hs
    obtain ⟨⟨hlen, -⟩, rfl⟩ := hs
    exact h.webSeed hok hlen
  | priorities prios =>
    cases hs
    exact h.setTable (applyFilePriorities_rewrites _ _) (applyFilePriorities_spares _ _)
  | recheck =>
    cases hs
    have hr := clearAllDownloaded_rewrites s.table
    have hnil : s.pipeline.verifying = [] := hok
    exact ⟨h.indexed.of_works hr.works, hr.works ▸ h.short, h.sized.rewrites hr, h.distinct,
      h.noted, fun n v peers hn => by
        rw [show (s.setTable s.table.clearAllDownloaded).pipeline.verifying = [] from hnil] at hn
        cases hn⟩
  | recheckOk index =>
    cases hs
    exact h.setTable (markDownloaded_rewrites _ _) (markDownloaded_spares _ _)

end Blamable

lemma start_blamable {t : Torrent}
    (hlen : ∀ pw ∈ t.piecesOfWork, pw.pieceWork.length < 2 ^ 32 - 1) (sequential : Bool) (priorities : List FilePriority) (bits : List Bool) :
    (start t sequential priorities bits).Blamable := by
  have hr := (installContent_rewrites (.new t.piecesOfWork) t sequential priorities).trans
    (applyBitfield_rewrites _ bits)
  have hw : (start t sequential priorities bits).table.works =
    (TorrentDownloadedState.new t.piecesOfWork).works := hr.works
  have hz : (TorrentDownloadedState.new t.piecesOfWork).Sized := by
    intro pw hpw c hc
    rw [(piecesOfWork_fresh hpw).1] at hc
    cases hc
  refine ⟨(new_gridded t).indexed.of_works hw, ?_, hz.rewrites hr, nodup_nil, rfl, nofun⟩
  rw [hw]
  exact forall_mem_map.2 hlen

/-- The peers whose chunks were copied into buffer `n` are blamed, each once, and no other. -/
def Blames (s s' : PieceTasks) (n : Nat) : Prop :=
  ∃ peers blamed : List PeerAddr, s.copied[n]? = some peers ∧
    s'.pipeline.hashFailures = s.pipeline.hashFailures ++ blamed.map (·, blamed.length == 1) ∧
    blamed.Nodup ∧ ∀ peer, peer ∈ blamed ↔ peer ∈ peers

/-- If the chunks of pieces that are being hashed are left alone, a buffer that fails its hash leads
to the right blame. -/
theorem blame_exact {t : Torrent} {sequential : Bool} {priorities : List FilePriority}
    {bits : List Bool} {as : List TaskAct} {s s' : PieceTasks} {n : Nat} {v : Verification}
    {joined : Bool} (hlen : ∀ pw ∈ t.piecesOfWork, pw.pieceWork.length < 2 ^ 32 - 1)
    (h : Run (step sha1) Undisturbed (start t sequential priorities bits) as s)
    (hv : s.pipeline.verifying[n]? = some v)
    (hfail : (joined && sha1 v.buf == v.expected) = false)
    (hs : s.step sha1 (.pipeline (.verified n joined)) = some s') : s.Blames s' n := by
  have hb : s.Blamable :=
    h.inv (fun hi hok hs => hi.step hok hs) (start_blamable hlen sequential priorities bits)
  have hlt : n < s.copied.length := hb.noted ▸ (List.getElem?_eq_some_iff.1 hv).1
  obtain ⟨pw, hpw, -, hpeers⟩ := hb.copied n v _ hv (getElem?_eq_getElem hlt)
  obtain ⟨hnodup, hmem⟩ := pieceContributors_spec hpw
  refine ⟨_, s.table.pieceContributors v.index, getElem?_eq_getElem hlt, ?_, hnodup,
    fun peer => (hmem peer).trans (hpeers peer).symm⟩
  simp only [PieceTasks.step, Pipeline.step, hv, map_some, some.injEq] at hs
  rw [← hs, hfail]
  rfl

def peerB : PeerAddr := ⟨.v4 0x0a000002, 6881⟩

/-- One peer sends the whole piece, with another content. -/
def wrongPiece : List TaskAct := [.pipeline (.piece peerA 0 0 (ascii "bb"))]

theorem blame_exact_one :
    ∃ s v s', Run (step sha1A) Undisturbed (start twoBytes false [] []) wrongPiece s ∧
      s.pipeline.verifying[0]? = some v ∧
      s.step sha1A (.pipeline (.verified 0 true)) = some s' ∧ s.Blames s' 0 :=
  have hrun := Run.of_isSome
  have hv := eq_some_get
  have hs := eq_some_get
  ⟨_, _, _, hrun, hv, hs, blame_exact (by decide +kernel) hrun hv (by decide +kernel) hs⟩

def lateByte : List TaskAct := wrongPiece ++ [.pipeline (.piece peerB 0 1 (ascii "b"))]

/-- The peer that sent a byte too late is blamed for the buffer of another. -/
theorem blame_exact_late :
    ¬ ∀ (sha1 : Bytes → Digest) (t : Torrent) (sequential : Bool) (priorities : List FilePriority)
      (bits : List Bool) (as : List TaskAct) (s s' : PieceTasks) (n : Nat) (v : Verification)
      (joined : Bool), (∀ pw ∈ t.piecesOfWork, pw.pieceWork.length < 2 ^ 32 - 1) →
      Run (step sha1) anyStep (start t sequential priorities bits) as s →
      s.pipeline.verifying[n]? = some v → (joined && sha1 v.buf == v.expected) = false →
      s.step sha1 (.pipeline (.verified n joined)) = some s' → s.Blames s' n := by
  intro h
  obtain ⟨peers, blamed, hpeers, hblamed, -, hmem⟩ :=
    h sha1A twoBytes false [] [] lateByte _ _ 0 _ true (by decide +kernel)
      .of_isSome eq_some_get (by decide +kernel)
      eq_some_get
  cases hpeers.symm.trans (by decide +kernel : _ = some [peerA])
  have hB := (congrArg ((peerB, false) ∈ ·) hblamed).mp (by decide +kernel)
  rcases mem_append.1 hB with hB | hB
  · exact absurd hB (by decide +kernel)
  · obtain ⟨peer, hpeer, heq⟩ := List.mem_map.1 hB
    rw [Prod.mk.injEq] at heq
    rw [heq.1, hmem] at hpeer
    exact absurd (mem_singleton.1 hpeer) (by decide)

end PieceTasks

end BitRev
