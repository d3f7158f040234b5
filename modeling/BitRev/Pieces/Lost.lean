import BitRev.Pieces.Blame

/-!
# Pieces that stop being owned

A piece is given up when its hash fails, when the writer task cannot write it, and when a recheck
begins. It can be fetched again once it is a candidate of `pick`, which wants it neither downloaded
nor reserved. After a failed hash `release_piece` frees the reservation; a failed write and a
recheck leave it as it is.
-/

namespace BitRev

open TorrentDownloadedState PieceWorkState Pipeline List Option

namespace TorrentDownloadedState

lemma hasPiece_iff_getElem? {t : TorrentDownloadedState} {i : Nat} :
    t.hasPiece i ↔ ∃ pw, t.pieces[i]? = some pw ∧ pw.downloaded := by
  rw [hasPiece]
  cases t.pieces[i]? <;> simp

variable {t t' t'' : TorrentDownloadedState} {index i : Nat}

/-- Owned pieces stay owned. -/
def Keeps (t t' : TorrentDownloadedState) : Prop :=
  ∀ i, t.hasPiece i → t'.hasPiece i

lemma Keeps.trans (h : Keeps t t') (h' : Keeps t' t'') : Keeps t t'' :=
  fun i hi => h' i (h i hi)

lemma Spares.lost {j : Option Nat} (h : Spares j t t') (hown : t.hasPiece i)
    (hlost : t'.hasPiece i = false) : j = some i := by
  by_contra hne
  obtain ⟨pw, hpw, hd⟩ := hasPiece_iff_getElem?.1 hown
  obtain ⟨pw', hpw', hd', -⟩ := h.at hne hpw hd
  rw [hasPiece_iff_getElem?.2 ⟨pw', hpw', hd'⟩] at hlost
  cases hlost

lemma Spares.keeps (h : Spares none t t') : Keeps t t' := by
  intro i hown
  by_contra hlost
  cases h.lost hown (Bool.eq_false_of_not_eq_true hlost)

lemma clearPieceChunks_keeps (t : TorrentDownloadedState) (index : Nat) :
    Keeps t (t.clearPieceChunks index) := by
  intro i hown
  obtain ⟨pw, hpw, hd⟩ := hasPiece_iff_getElem?.1 hown
  refine hasPiece_iff_getElem?.2 ?_
  rw [clearPieceChunks, getElem?_modify, hpw]
  refine ⟨_, rfl, ?_⟩
  split <;> exact hd

lemma stores_keeps (h : t.Indexed) (index start : Nat) (buf : Bytes) (peer : PeerAddr) :
    Keeps t ((t.setChuncks index start buf peer).1.setDownloadedIfAllChunks index).1 := by
  intro i hown
  obtain ⟨pw, hpw, hd⟩ := hasPiece_iff_getElem?.1 hown
  refine hasPiece_iff_getElem?.2 ?_
  rw [stored_pieces h, hpw]
  refine ⟨_, rfl, ?_⟩
  split
  · simp [complete, hd]
  · exact hd

lemma mem_candidates (hlost : t.hasPiece i = false) (hres : t.reservedAt i = none)
    {peerHas : Nat → Bool} (hhas : peerHas i) (hwanted : t.wanted i) :
    i ∈ t.candidates peerHas := by
  rw [candidates, mem_filter, mem_range]
  refine ⟨?_, ?_⟩
  · simp only [wanted, Bool.and_eq_true, decide_eq_true_eq] at hwanted
    exact hwanted.1
  · rw [reservedAt] at hres
    simp [hlost, hres, hhas, hwanted]

variable (t : TorrentDownloadedState)

lemma reservedAt_removeDownloaded (index i : Nat) :
    (t.removeDownloaded index).reservedAt i = t.reservedAt i := by
  rw [reservedAt, reservedAt, removeDownloaded, getElem?_map]
  cases t.pieces[i]? with
  | none => rfl
  | some pw =>
    simp only [map_some, bind_some]
    split <;> rfl

lemma reservedAt_clearAllDownloaded (i : Nat) :
    t.clearAllDownloaded.reservedAt i = t.reservedAt i := by
  exact foldlRecOn (motive := fun t' => reservedAt t' i = t.reservedAt i) _ _ rfl
    fun t' h index _ => (reservedAt_removeDownloaded t' index i).trans h

lemma reservedAt_releasePiece (i : Nat) : (t.releasePiece i).reservedAt i = none := by
  rw [reservedAt, releasePiece, getElem?_modify]
  cases t.pieces[i]? with
  | none => rfl
  | some pw => simp

end TorrentDownloadedState

namespace PieceTasks

variable {sha1 : Bytes → Digest} {s s' : PieceTasks} {p : Pipeline}

/-- A piece that cannot be written is not reserved any more, and when a recheck begins no owned
piece is. -/
def Unreserved (s : PieceTasks) : TaskAct → Prop
  | .pipeline (.wrote false) => ∀ piece ∈ s.pipeline.writing, s.table.reservedAt piece.index = none
  | .recheck => ∀ i < s.table.pieces.length, s.table.hasPiece i →
    s.table.reservedAt i = none
  | _ => True

/-- After a failed hash the piece is free. -/
lemma onVerified_lost (hi : p.table.Indexed) {v : Verification} {ok : Bool} {i : Nat}
    (hown : p.table.hasPiece i) (hlost : (p.onVerified v ok).table.hasPiece i = false) :
    (p.onVerified v ok).table.reservedAt i = none := by
  cases ok with
  | true =>
    have hk : Keeps p.table (p.onVerified v true).table := by
      unfold onVerified
      rw [if_pos rfl]
      dsimp only
      split
      · exact (claimWrite_spares _ _).keeps.trans (clearPieceChunks_keeps _ _)
      · exact (claimWrite_spares _ _).keeps
    rw [hk i hown] at hlost
    cases hlost
  | false =>
    obtain rfl := some.inj ((onVerified_spares hi v false).lost hown hlost)
    exact reservedAt_releasePiece (p.table.removeDownloaded v.index) v.index

lemma onWebSeed_lost (hi : p.table.Indexed) {peer : PeerAddr} {index : Nat}
    {buf : Bytes} {i : Nat} (hown : p.table.hasPiece i)
    (hlost : (p.onWebSeed sha1 peer index buf).table.hasPiece i = false) :
    (p.onWebSeed sha1 peer index buf).table.reservedAt i = none := by
  have hst : Keeps p.table (p.fetched peer index buf).1 := stores_keeps hi index 0 buf peer
  have hnot : ¬Keeps (p.fetched peer index buf).1 (p.onWebSeed sha1 peer index buf).table := by
    intro hk
    rw [hk i (hst i hown)] at hlost
    cases hlost
  obtain ⟨-, ht⟩ | ⟨-, ht | ht | ht⟩ := p.onWebSeed_cases sha1 peer index buf
  · rw [ht] at hnot
    exact absurd (releaseReservation_spares _ _ _).keeps hnot
  · rw [ht] at hnot
    refine absurd (Keeps.trans ?_ (releaseReservation_spares _ _ _).keeps) hnot
    exact (claimWrite_spares _ _).keeps.trans (clearPieceChunks_keeps _ _)
  · rw [ht] at hnot
    exact absurd ((claimWrite_spares _ _).trans (releaseReservation_spares _ _ _)).keeps hnot
  · obtain rfl := some.inj ((onWebSeed_spares sha1 hi peer index buf).lost hown hlost)
    rw [ht]
    exact reservedAt_releasePiece _ _

lemma onWrote_lost (hi : p.table.Indexed) {piece : FullPiece} {ok : Bool}
    (hres : ok = false → p.table.reservedAt piece.index = none) {i : Nat}
    (hown : p.table.hasPiece i) (hlost : (p.onWrote piece ok).table.hasPiece i = false) :
    (p.onWrote piece ok).table.reservedAt i = none := by
  cases ok with
  | true =>
    have hsame : (p.onWrote piece true).table.hasPiece i = p.table.hasPiece i := rfl
    rw [hsame, hown] at hlost
    cases hlost
  | false =>
    obtain rfl := some.inj ((removeDownloaded_spares hi piece.index).lost hown hlost)
    exact (reservedAt_removeDownloaded p.table _ _).trans (hres rfl)

lemma lost_unreserved (hi : s.table.Indexed) {a : TaskAct} (hok : s.Unreserved a)
    (hs : s.step sha1 a = some s') {i : Nat} (hown : s.table.hasPiece i)
    (hlost : s'.table.hasPiece i = false) : s'.table.reservedAt i = none := by
  have hnot : ¬Keeps s.table s'.table := by
    intro hk
    rw [hk i hown] at hlost
    cases hlost
  cases a with
  | pipeline a =>
    obtain ⟨p', hp, rfl⟩ := map_eq_some_iff.1 hs
    cases a with
    | piece peer index start data =>
      cases hp
      have hk : Keeps s.table (s.pipeline.onPiece peer index start data).table := by
        rw [onPiece_table]
        exact stores_keeps (t := (s.table.noteBlockReceived _ peer).1) hi index start data peer
      exact absurd hk hnot
    | verified n joined =>
      obtain ⟨v, -, rfl⟩ := map_eq_some_iff.1 hp
      exact onVerified_lost
        (p := { s.pipeline with verifying := s.pipeline.verifying.eraseIdx n }) hi hown hlost
    | recv =>
      simp only [Pipeline.step] at hp
      split at hp
      · cases hp
        exact absurd (fun _ h => h) hnot
      · cases hp
    | wrote ok =>
      obtain ⟨piece, hpiece, rfl⟩ := map_eq_some_iff.1 hp
      exact onWrote_lost hi (fun hf => by
        subst hf
        exact hok piece hpiece) hown hlost
    | snapshot =>
      cases hp
      exact absurd (fun _ h => h) hnot
  | reserve index peer =>
    obtain ⟨t, ht, rfl⟩ := map_eq_some_iff.1 hs
    exact absurd (tryReservePiece_spares ht).keeps hnot
  | release index peer =>
    cases hs
    exact absurd (releaseReservation_spares _ _ _).keeps hnot
  | releasePeer peer clearChunks =>
    cases hs
    exact absurd (releasePeerReservations_spares _ _ _).keeps hnot
  | releasePiece index =>
    cases hs
    exact absurd (releasePiece_spares _ _).keeps hnot
  | webSeed peer index buf =>
    simp only [PieceTasks.step, ite_none_right_eq_some, some.injEq] at hs
    obtain ⟨-, rfl⟩ := hs
    exact onWebSeed_lost hi hown hlost
  | priorities prios =>
    cases hs
    exact absurd (applyFilePriorities_spares _ _).keeps hnot
  | recheck =>
    cases hs
    obtain ⟨pw, hpw, -⟩ := hasPiece_iff_getElem?.1 hown
    exact (reservedAt_clearAllDownloaded s.table i).trans
      (hok i (List.getElem?_eq_some_iff.1 hpw).1 hown)
  | recheckOk index =>
    cases hs
    exact absurd (markDownloaded_spares _ _).keeps hnot

lemma step_works {a : TaskAct} (hs : s.step sha1 a = some s') : s'.table.works = s.table.works := by
  cases a with
  | pipeline a =>
    obtain ⟨p', hp, rfl⟩ := map_eq_some_iff.1 hs
    exact step_works hp
  | reserve index peer =>
    obtain ⟨t, ht, rfl⟩ := map_eq_some_iff.1 hs
    exact (tryReservePiece_rewrites ht).works
  | release index peer =>
    cases hs
    exact (releaseReservation_rewrites _ _ _).works
  | releasePeer peer clearChunks =>
    cases hs
    exact (releasePeerReservations_rewrites _ _ _).works
  | releasePiece index =>
    cases hs
    exact (releasePiece_rewrites _ _).works
  | webSeed peer index buf =>
    simp only [PieceTasks.step, ite_none_right_eq_some, some.injEq] at hs
    obtain ⟨-, rfl⟩ := hs
    exact (s.pipeline.onWebSeed_rewrites sha1 peer index buf).works.trans
      (s.pipeline.fetched_works peer index buf)
  | priorities prios =>
    cases hs
    exact (applyFilePriorities_rewrites _ _).works
  | recheck =>
    cases hs
    exact (clearAllDownloaded_rewrites _).works
  | recheckOk index =>
    cases hs
    exact (markDownloaded_rewrites _ _).works

/-- In every state reached, a wanted piece that stops being owned in a step is a candidate after it
for every peer that has it, if it was not reserved when it could not be written or was
rechecked. -/
theorem lost_is_candidate {t : Torrent} {sequential : Bool} {priorities : List FilePriority}
    {bits : List Bool} {as : List TaskAct} {s s' : PieceTasks} {a : TaskAct} {i : Nat}
    {peerHas : Nat → Bool} (h : Run (step sha1) anyStep (start t sequential priorities bits) as s)
    (hok : s.Unreserved a) (hs : s.step sha1 a = some s') (hown : s.table.hasPiece i)
    (hlost : s'.table.hasPiece i = false) (hwanted : s'.table.wanted i)
    (hhas : peerHas i) : i ∈ s'.table.candidates peerHas := by
  have hi : s.table.Indexed :=
    h.inv (I := fun s => s.table.Indexed) (fun hi _ hs => hi.of_works (step_works hs))
      (start_gridded t sequential priorities bits).indexed
  exact mem_candidates hlost (lost_unreserved hi hok hs hown hlost) hhas hwanted

/-- A peer reserves the piece and sends another content. -/
def wrongByte : List TaskAct :=
  [.reserve 0 peerA, .pipeline (.piece peerA 0 0 (ascii "b"))]

theorem lost_is_candidate_hash :
    ∃ s s', Run (step sha1A) anyStep (start pieceA false [] []) wrongByte s ∧
      s.step sha1A (.pipeline (.verified 0 true)) = some s' ∧
      s.table.hasPiece 0 ∧ s'.table.hasPiece 0 = false ∧
      0 ∈ s'.table.candidates fun _ => true :=
  have hrun := Run.of_isSome
  have hs := eq_some_get
  ⟨_, _, hrun, hs, by decide +kernel, by decide +kernel,
    lost_is_candidate (h := hrun) (a := .pipeline (.verified 0 true)) trivial hs (by decide +kernel)
      (by decide +kernel) (by decide +kernel) rfl⟩

def toWriter : List TaskAct :=
  [.reserve 0 peerA, .pipeline (.piece peerA 0 0 (ascii "a")),
    .pipeline (.verified 0 true), .pipeline .recv]

/-- A piece that cannot be written stays reserved. -/
theorem lost_is_candidate_write :
    ¬ ∀ (sha1 : Bytes → Digest) (t : Torrent) (sequential : Bool) (priorities : List FilePriority)
      (bits : List Bool) (as : List TaskAct) (s s' : PieceTasks) (a : TaskAct) (i : Nat)
      (peerHas : Nat → Bool), Run (step sha1) anyStep (start t sequential priorities bits) as s →
      s.step sha1 a = some s' → s.table.hasPiece i → s'.table.hasPiece i = false →
      s'.table.wanted i → peerHas i → i ∈ s'.table.candidates peerHas := by
  intro h
  have hmem := h sha1A pieceA false [] [] toWriter _ _ (.pipeline (.wrote false)) 0 (fun _ => true)
    .of_isSome eq_some_get (by decide +kernel)
    (by decide +kernel) (by decide +kernel) rfl
  exact absurd hmem (by decide +kernel)

end PieceTasks

end BitRev
