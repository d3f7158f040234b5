import BitRev.Framework.Pool
import BitRev.Framework.Run
import BitRev.Pieces.Table

/-!
# From chunks to disk

The three tasks a piece passes through: a peer handler collects its chunks and, once they cover
it, hashes the assembled buffer (`on_received_message`, the `Piece` arm); a buffer that passes is
sent to the writer task, which writes it to storage (`add_torrent_meta`). The handler is suspended
while the hash runs, and the writer while the write does, so other messages and resume snapshots
come in between. SHA-1 is a parameter.

A piece counts as owned from the moment its chunks cover it. `Pipeline.Inv` says what then holds:
every owned piece is on its way through the pipeline or has been written, and none is on its way
twice.
-/

namespace BitRev

open TorrentDownloadedState List Function Option

/-- A handler suspended in `verify_owned`. -/
structure Verification where
  index : Nat
  length : Nat
  expected : Digest
  buf : Bytes
  deriving DecidableEq

structure Pipeline where
  table : TorrentDownloadedState
  verifying : List Verification := []
  /-- The pieces sent to the writer task and not yet received by it. -/
  queue : List FullPiece := []
  /-- The piece the writer task is suspended in `write_piece` with. -/
  writing : Option FullPiece := none
  /-- The buffers that passed the hash check so far. -/
  passed : List FullPiece := []
  /-- The pieces `write_piece` returned `Ok` for so far. -/
  written : List FullPiece := []
  /-- The bitfields saved by resume snapshots so far. -/
  snapshots : List (List Bool) := []
  /-- The calls of `record_hash_failure` so far: the peer, and whether it alone sent the piece. -/
  hashFailures : List (PeerAddr × Bool) := []
  deriving DecidableEq

inductive PipelineAct where
  /-- A `Piece` message. -/
  | piece (peer : PeerAddr) (index start : Nat) (data : Bytes)
  /-- The hash of the `n`-th suspended handler returns; not `joined` if its task panicked. -/
  | verified (n : Nat) (joined : Bool)
  /-- The writer task receives the next piece. -/
  | recv
  /-- `write_piece` returns. -/
  | wrote (ok : Bool)
  /-- A resume snapshot. -/
  | snapshot
  deriving DecidableEq

namespace Pipeline

/-- The table with the chunk of a `Piece` message. -/
def receive (p : Pipeline) (peer : PeerAddr) (index start : Nat) (data : Bytes) :
    TorrentDownloadedState :=
  let t := (p.table.noteBlockReceived ⟨index, start, data.length % 2 ^ 32⟩ peer).1
  (t.setChuncks index start data peer).1

/-- A `Piece` message, up to the hash of the piece it completes. -/
def onPiece (p : Pipeline) (peer : PeerAddr) (index start : Nat) (data : Bytes) : Pipeline :=
  match (p.receive peer index start data).setDownloadedIfAllChunks index with
  | (t, none) => { p with table := t }
  | (t, some pw) =>
    { p with
      table := t
      verifying := p.verifying ++
        [⟨index, pw.pieceWork.length, pw.pieceWork.hash, pw.chunkToBuf⟩] }

/-- The rest of the handler, after the hash of `v` has returned `ok`. -/
def onVerified (p : Pipeline) (v : Verification) (ok : Bool) : Pipeline :=
  if ok then
    let piece : FullPiece := ⟨v.index, v.length, v.buf⟩
    let (t, claimed) := p.table.claimWrite v.index
    if claimed then
      { p with table := t.clearPieceChunks v.index, queue := p.queue ++ [piece],
               passed := p.passed ++ [piece] }
    else { p with table := t, passed := p.passed ++ [piece] }
  else
    let contributors := p.table.pieceContributors v.index
    { p with
      table := (p.table.removeDownloaded v.index).releasePiece v.index
      hashFailures := p.hashFailures ++ contributors.map (·, contributors.length == 1) }

/-- The writer task, after `write_piece` of `piece` has returned. -/
def onWrote (p : Pipeline) (piece : FullPiece) (ok : Bool) : Pipeline :=
  if ok then { p with writing := none, written := p.written ++ [piece] }
  else { p with writing := none, table := p.table.removeDownloaded piece.index }

section Step

variable (sha1 : Bytes → Digest)

def step (p : Pipeline) : PipelineAct → Option Pipeline
  | .piece peer index start data => some (p.onPiece peer index start data)
  | .verified n joined =>
    p.verifying[n]?.map fun v =>
      { p with verifying := p.verifying.eraseIdx n }.onVerified v
        (joined && sha1 v.buf == v.expected)
  | .recv =>
    match p.writing, p.queue with
    | none, piece :: queue => some { p with writing := some piece, queue }
    | _, _ => none
  | .wrote ok => p.writing.map fun piece => p.onWrote piece ok
  | .snapshot => some { p with snapshots := p.snapshots ++ [p.table.ourBitfield] }

end Step

def init (t : Torrent) : Pipeline := { table := .new t.piecesOfWork }

def Secured (sha1 : Bytes → Digest) (t : Torrent) (p : Pipeline) (i : Nat) : Prop :=
  ∃ piece ∈ p.written, piece.index = i ∧ piece ∈ p.passed ∧
    t.pieceHashes[i]? = some (sha1 piece.buf)

/-- Nothing is being hashed, waits for the writer or is being written. -/
def Quiescent (p : Pipeline) : Prop := p.verifying = [] ∧ p.queue = [] ∧ p.writing = none

instance (p : Pipeline) : Decidable p.Quiescent :=
  inferInstanceAs (Decidable (p.verifying = [] ∧ p.queue = [] ∧ p.writing = none))

/-- How many buffers of piece `i` are on their way. -/
def inFlight (p : Pipeline) (i : Nat) : Nat :=
  p.verifying.countP (·.index = i) + p.queue.countP (·.index = i) +
    p.writing.toList.countP (·.index = i)

structure Inv (sha1 : Bytes → Digest) (t : Torrent) (p : Pipeline) : Prop where
  indexed : p.table.Indexed
  hashes : ∀ i, (p.table.flagsAt i).map (·.work.hash) = t.pieceHashes[i]?
  /-- An owned piece was written once or is on its way once. -/
  sources : ∀ i, p.written.countP (·.index = i) + p.inFlight i = (p.table.hasPiece i).toNat
  unclaimed : ∀ i f, p.table.flagsAt i = some f →
    f.downloaded = false ∨ (∃ v ∈ p.verifying, v.index = i) → f.writeClaimed = false
  expected : ∀ v ∈ p.verifying, t.pieceHashes[v.index]? = some v.expected
  checked : ∀ piece ∈ p.queue ++ p.writing.toList ++ p.written, piece ∈ p.passed ∧
    t.pieceHashes[piece.index]? = some (sha1 piece.buf)

variable {sha1 : Bytes → Digest} {t : Torrent} {p p' : Pipeline} {i n : Nat}
  {tb : TorrentDownloadedState} {v : Verification} {a : PipelineAct}

lemma init_inv (t : Torrent) : Inv sha1 t (init t) where
  indexed _ _ h := (Torrent.piecesOfWork_flagsAt h).1
  hashes i := by
    rw [init, flagsAt_new, Torrent.piecesOfWork, getElem?_mapIdx, Option.map_map, Option.map_map]
    exact map_id'
  sources i := by
    rw [hasPiece_eq]
    cases h : (init t).table.flagsAt i with
    | none => simp [inFlight, init]
    | some f => simp [inFlight, init, (Torrent.piecesOfWork_flagsAt h).2.1]
  unclaimed _ _ h _ := (Torrent.piecesOfWork_flagsAt h).2.2.1
  expected := by simp [init]
  checked := by simp [init]

/-! ## One step -/

lemma countP_written_pos : 0 < p.written.countP (·.index = i) ↔ ∃ piece ∈ p.written, piece.index = i := by
  simp [countP_pos_iff]

section

variable (h : Inv sha1 t p)
include h

lemma Inv.once (i : Nat) : p.inFlight i ≤ 1 := by
  have := h.sources i
  have := Bool.toNat_le (p.table.hasPiece i)
  omega

lemma Inv.fresh (piece : FullPiece) (hp : piece ∈ p.written) : p.inFlight piece.index = 0 := by
  have := countP_written_pos.2 ⟨piece, hp, rfl⟩
  have := h.sources piece.index
  have := Bool.toNat_le (p.table.hasPiece piece.index)
  omega

lemma Inv.owned (i : Nat) : p.table.hasPiece i = true ↔
    p.inFlight i = 1 ∨ ∃ piece ∈ p.written, piece.index = i := by
  have := h.sources i
  rw [← countP_written_pos, ← Bool.toNat_eq_one]
  have := Bool.toNat_le (p.table.hasPiece i)
  omega

end

lemma hasPiece_iff : tb.hasPiece i = true ↔ ∃ f, tb.flagsAt i = some f ∧ f.downloaded = true := by
  rw [hasPiece_eq]
  cases tb.flagsAt i <;> simp

lemma hasPiece_congr {tb tb' : TorrentDownloadedState}
    (h : tb'.flagsAt i = tb.flagsAt i) : tb'.hasPiece i = tb.hasPiece i := by
  rw [hasPiece_eq, hasPiece_eq, h]

lemma Inv.congr_table (h : Inv sha1 t p)
    (hf : ∀ i, tb.flagsAt i = p.table.flagsAt i) : Inv sha1 t { p with table := tb } where
  indexed i f hi := h.indexed i f (hf i ▸ hi)
  hashes i := hf i ▸ h.hashes i
  __ := h
  sources i := (hasPiece_congr (hf i) : tb.hasPiece i = _) ▸ h.sources i
  unclaimed i f hi := h.unclaimed i f (hf i ▸ hi)

lemma Inv.start (h : Inv sha1 t p) {f : PieceFlags}
    (hi : p.table.flagsAt i = some f) (hd : f.downloaded = false)
    (hf : ∀ j, tb.flagsAt j =
      (p.table.flagsAt j).map fun x => if i = j then { x with downloaded := true } else x)
    (len : Nat) (buf : Bytes) :
    Inv sha1 t { p with
      table := tb, verifying := p.verifying ++ [⟨i, len, f.work.hash, buf⟩] } := by
  have hfl : ∀ j, inFlight { p with
      table := tb, verifying := p.verifying ++ [⟨i, len, f.work.hash, buf⟩] } j =
      p.inFlight j + if i = j then 1 else 0 := by
    intro j
    simp only [inFlight, countP_append, countP_singleton, decide_eq_true_eq]
    omega
  refine ⟨fun j g hj => ?_, fun j => ?_, fun j => ?_, fun j g hj hg => ?_, fun v hv => ?_,
    h.checked⟩
  · obtain ⟨g', hg', rfl⟩ := map_eq_some_iff.1 (hf j ▸ hj)
    have := h.indexed j g' hg'
    split <;> exact this
  · rw [← h.hashes j]
    show (tb.flagsAt j).map _ = _
    rw [hf j, Option.map_map]
    refine congrArg (Option.map · _) (funext fun x => ?_)
    simp only [comp_apply]
    split <;> rfl
  · have hj := h.sources j
    show p.written.countP _ + _ = (tb.hasPiece j).toNat
    rw [hasPiece_eq] at hj ⊢
    rw [hfl, hf j]
    rcases eq_or_ne i j with rfl | hij
    · simp only [hi, map_some, getD_some, hd, Bool.toNat_false, Bool.toNat_true, if_true] at hj ⊢
      omega
    · simpa [hij] using hj
  · obtain ⟨g', hg', rfl⟩ := map_eq_some_iff.1 (hf j ▸ hj)
    rcases eq_or_ne i j with rfl | hij
    · rw [hi] at hg'
      cases hg'
      simpa using h.unclaimed i f hi (.inl hd)
    · have hg'' : g'.downloaded = false ∨ ∃ v ∈ p.verifying, v.index = j := by
        simpa [hij, or_and_right, exists_or] using hg
      simpa [hij] using h.unclaimed j g' hg' hg''
  · refine forall_mem_append.2 ⟨h.expected, forall_mem_singleton.2 ?_⟩ v hv
    show t.pieceHashes[i]? = _
    rw [← h.hashes i, hi]
    rfl

lemma Inv.fail (h : Inv sha1 t p) (hi : p.inFlight i = 1)
    (hfl : ∀ j, p'.inFlight j + (if i = j then 1 else 0) = p.inFlight j)
    (hf : ∀ j, p'.table.flagsAt j = (p.table.flagsAt j).map fun x =>
      if x.work.index = i then { x with downloaded := false, writeClaimed := false } else x)
    (hv : p'.verifying ⊆ p.verifying)
    (hq : p'.queue ++ p'.writing.toList ⊆ p.queue ++ p.writing.toList)
    (hw : p'.written = p.written) (hp : p'.passed = p.passed) : Inv sha1 t p' := by
  have hat : ∀ j g, p'.table.flagsAt j = some g → ∃ g', p.table.flagsAt j = some g' ∧
      g = if j = i then { g' with downloaded := false, writeClaimed := false } else g' := by
    intro j g hj
    obtain ⟨g', hg', rfl⟩ := map_eq_some_iff.1 (hf j ▸ hj)
    exact ⟨g', hg', by rw [h.indexed j g' hg']⟩
  refine ⟨fun j g hj => ?_, fun j => ?_, fun j => ?_, fun j g hj hg => ?_, fun v hv' => h.expected v (hv hv'), fun piece hpiece => ?_⟩
  · obtain ⟨g', hg', rfl⟩ := hat j g hj
    have := h.indexed j g' hg'
    split <;> exact this
  · rw [← h.hashes j, hf j, Option.map_map]
    refine congrArg (Option.map · _) (funext fun x => ?_)
    simp only [comp_apply]
    split <;> rfl
  · have hj := h.sources j
    have hflj := hfl j
    rw [hw]
    rcases eq_or_ne i j with rfl | hij
    · -- the piece of the dropped buffer: not owned, not on its way, never written
      have hnone : p'.table.hasPiece i = false := by
        rw [hasPiece_eq]
        cases hg : p'.table.flagsAt i with
        | none => rfl
        | some g =>
          obtain ⟨g', -, rfl⟩ := hat i g hg
          simp
      have := Bool.toNat_le (p.table.hasPiece i)
      rw [if_pos rfl] at hflj
      rw [hnone, Bool.toNat_false]
      omega
    · rw [if_neg hij, Nat.add_zero] at hflj
      rw [hflj, hj]
      refine congrArg Bool.toNat (hasPiece_congr ?_).symm
      rw [hf j]
      cases hg : p.table.flagsAt j with
      | none => rfl
      | some g => rw [map_some, if_neg (h.indexed j g hg ▸ hij.symm)]
  · obtain ⟨g', hg', rfl⟩ := hat j g hj
    rcases eq_or_ne j i with rfl | hij
    · simp
    · rw [if_neg hij] at hg ⊢
      exact h.unclaimed j g' hg' (hg.imp id fun ⟨v, hv', hvj⟩ => ⟨v, hv hv', hvj⟩)
  · rw [hp]
    rw [hw] at hpiece
    exact h.checked piece (mem_append.2 ((mem_append.1 hpiece).imp_left (hq ·)))

/-- The handler whose hash has returned is no longer on its way. -/
lemma inFlight_eraseIdx (h : p.verifying[n]? = some v) (j : Nat) :
    inFlight { p with verifying := p.verifying.eraseIdx n } j + (if v.index = j then 1 else 0) =
      p.inFlight j := by
  have := Pool.countP_eraseIdx (fun v : Verification => decide (v.index = j)) h
  simp only [decide_eq_true_eq] at this
  simp only [inFlight]
  omega

lemma Inv.flags_of_inFlight (h : Inv sha1 t p) (hi : p.inFlight i = 1) :
    ∃ f, p.table.flagsAt i = some f ∧ f.downloaded = true :=
  hasPiece_iff.1 ((h.owned i).2 (.inl hi))

lemma Inv.inFlight_of_verifying (h : Inv sha1 t p)
    (hv : p.verifying[n]? = some v) : p.inFlight v.index = 1 := by
  have h1 := h.once v.index
  have h2 := inFlight_eraseIdx hv v.index
  simp only [if_true] at h2
  omega

lemma Inv.pass (h : Inv sha1 t p) (hv : p.verifying[n]? = some v) (hok : sha1 v.buf = v.expected) :
    Inv sha1 t ({ p with verifying := p.verifying.eraseIdx n }.onVerified v true) := by
  have hone := h.inFlight_of_verifying hv
  obtain ⟨f, hf, hd⟩ := h.flags_of_inFlight hone
  have hmem := mem_of_getElem? hv
  have hclaim : (p.table.claimWrite v.index).2 = true := by
    rw [claimWrite_snd, hf]
    simp [h.unclaimed v.index f hf (.inr ⟨v, hmem, rfl⟩)]
  have hrest : ∀ v' ∈ p.verifying.eraseIdx n, v'.index ≠ v.index := by
    intro v' hv' heq
    have h2 := inFlight_eraseIdx hv v.index
    have : 0 < (p.verifying.eraseIdx n).countP (·.index = v.index) :=
      countP_pos_iff.2 ⟨v', hv', by simpa using heq⟩
    simp only [inFlight, if_true] at h2 hone
    omega
  simp only [onVerified, if_true, hclaim]
  have hfl : ∀ j, inFlight { p with
      verifying := p.verifying.eraseIdx n
      queue := p.queue ++ [⟨v.index, v.length, v.buf⟩] } j = p.inFlight j := by
    intro j
    have := inFlight_eraseIdx hv j
    simp only [inFlight, countP_append, countP_singleton, decide_eq_true_eq] at this ⊢
    omega
  have hown : ∀ j, ((p.table.claimWrite v.index).1.clearPieceChunks v.index).hasPiece j =
      p.table.hasPiece j := by
    intro j
    rw [hasPiece_eq, hasPiece_eq, clearPieceChunks_flagsAt, claimWrite_flagsAt, Option.map_map]
    refine congrArg (Option.getD · _) (congrArg (Option.map · _) (funext fun x => ?_))
    simp only [comp_apply]
    split <;> rfl
  refine ⟨fun j g hj => ?_, fun j => ?_, fun j => ?_, fun j g hj hg => ?_,
    fun v' hv' => h.expected v' (mem_of_mem_eraseIdx hv'), fun piece hp => ?_⟩
  · simp only [clearPieceChunks_flagsAt, claimWrite_flagsAt, map_eq_some_iff] at hj
    obtain ⟨g', hg', rfl⟩ := hj
    have := h.indexed j g' hg'
    split <;> exact this
  · rw [← h.hashes j]
    simp only [clearPieceChunks_flagsAt, claimWrite_flagsAt, Option.map_map]
    refine congrArg (Option.map · _) (funext fun x => ?_)
    simp only [comp_apply]
    split <;> rfl
  · exact (congrArg _ (hfl j)).trans ((h.sources j).trans (congrArg Bool.toNat (hown j).symm))
  · simp only [clearPieceChunks_flagsAt, claimWrite_flagsAt, map_eq_some_iff] at hj
    obtain ⟨g', hg', rfl⟩ := hj
    rcases eq_or_ne v.index j with rfl | hij
    · -- the claimed piece is downloaded and no longer being hashed
      rw [hf] at hg'
      cases hg'
      rcases hg with hg | ⟨v', hv', heq⟩
      · simp [hd] at hg
      · exact absurd heq (hrest v' hv')
    · rw [if_neg hij] at hg ⊢
      exact h.unclaimed j g' hg'
        (hg.imp id fun ⟨v', hv', hvj⟩ => ⟨v', mem_of_mem_eraseIdx hv', hvj⟩)
  · have hnew : t.pieceHashes[v.index]? = some (sha1 v.buf) := hok ▸ h.expected v hmem
    simp only [mem_append, mem_singleton] at hp ⊢
    have hold := h.checked piece
    simp only [mem_append] at hold
    rcases hp with ((hp | rfl) | hp) | hp
    · exact (hold (.inl (.inl hp))).imp_left .inl
    · exact ⟨.inr rfl, hnew⟩
    · exact (hold (.inl (.inr hp))).imp_left .inl
    · exact (hold (.inr hp)).imp_left .inl

lemma receive_flagsAt (p : Pipeline) (peer : PeerAddr) (index start : Nat) (data : Bytes)
    (j : Nat) : (p.receive peer index start data).flagsAt j = p.table.flagsAt j := by
  rw [receive, setChuncks_flagsAt, noteBlockReceived_flagsAt]

/-- The piece that is written is no longer on its way. -/
lemma inFlight_written {piece : FullPiece} (hw : p.writing = some piece) (j : Nat) :
    inFlight { p with writing := none } j + (if piece.index = j then 1 else 0) = p.inFlight j := by
  simp only [inFlight, hw, toList, countP_singleton, countP_nil, decide_eq_true_eq]
  omega

lemma onPiece_inv (h : Inv sha1 t p) (peer : PeerAddr) (index start : Nat) (data : Bytes) :
    Inv sha1 t (p.onPiece peer index start data) := by
  unfold onPiece
  have hsame := p.receive_flagsAt peer index start data
  generalize p.receive peer index start data = tb at hsame
  obtain ⟨hnone, hfl⟩ | ⟨pw, hsome, hpw, hd, hfl⟩ := tb.setDownloadedIfAllChunks_cases index
  · rw [← Prod.mk.eta (p := tb.setDownloadedIfAllChunks index), hnone]
    exact h.congr_table fun j => (hfl j).trans (hsame j)
  · rw [← Prod.mk.eta (p := tb.setDownloadedIfAllChunks index), hsome]
    have hat : p.table.flagsAt index = some pw.flags := by
      rw [← hsame, flagsAt, hpw]
      rfl
    exact h.start hat hd (fun j => by rw [hfl j, hsame j]) _ _

lemma onVerified_false_inv (h : Inv sha1 t p) (hv : p.verifying[n]? = some v) :
    Inv sha1 t ({ p with verifying := p.verifying.eraseIdx n }.onVerified v false) := by
  refine h.fail (h.inFlight_of_verifying hv) (fun j => inFlight_eraseIdx hv j) (fun j => ?_)
    (eraseIdx_subset ..) (List.Subset.refl _) rfl rfl
  simp [onVerified]

lemma onWrote_inv (h : Inv sha1 t p) {piece : FullPiece} (hw : p.writing = some piece)
    (ok : Bool) : Inv sha1 t (p.onWrote piece ok) := by
  have hfl := inFlight_written hw
  have hone : p.inFlight piece.index = 1 := by
    have h1 := h.once piece.index
    have h2 := hfl piece.index
    simp only [if_true] at h2
    omega
  cases ok with
  | false =>
    refine h.fail hone (fun j => hfl j) (fun j => ?_) (List.Subset.refl _) ?_ rfl rfl
    · simp [onWrote]
    · simp [onWrote, hw]
  | true =>
    simp only [onWrote, if_true]
    have hchk := h.checked piece (by simp [hw])
    refine ⟨h.indexed, h.hashes, fun j => ?_, h.unclaimed, h.expected, fun q hq => ?_⟩
    · have h1 := h.sources j
      have h2 := hfl j
      simp only [inFlight, countP_append, countP_singleton, decide_eq_true_eq] at h1 h2 ⊢
      omega
    · simp only [toList, append_nil, mem_append, mem_singleton] at hq
      have hold := h.checked q
      simp only [mem_append] at hold
      rcases hq with hq | hq | rfl
      · exact hold (.inl (.inl hq))
      · exact hold (.inr hq)
      · exact hchk

/-- One step keeps the invariant. -/
lemma step_inv (h : Inv sha1 t p) (hs : step sha1 p a = some p') : Inv sha1 t p' := by
  cases a with
  | piece peer index start data =>
    cases hs
    exact onPiece_inv h peer index start data
  | verified n joined =>
    obtain ⟨v, hv, rfl⟩ := map_eq_some_iff.1 hs
    cases hok : (joined && sha1 v.buf == v.expected) with
    | false => exact onVerified_false_inv h hv
    | true =>
      simp only [Bool.and_eq_true, beq_iff_eq] at hok
      exact h.pass hv hok.2
  | recv =>
    simp only [step] at hs
    split at hs <;> cases hs
    rename_i piece queue hw hq
    have hfl : ∀ j, inFlight { p with writing := some piece, queue } j = p.inFlight j := by
      intro j
      simp only [inFlight, hw, hq, toList, countP_cons, countP_nil]
      omega
    refine ⟨h.indexed, h.hashes, fun j => (congrArg _ (hfl j)).trans (h.sources j), h.unclaimed,
      h.expected, fun q hq' => h.checked q ?_⟩
    · simp only [hw, hq, toList, mem_append, mem_cons, not_mem_nil, or_false] at hq' ⊢
      tauto
  | wrote ok =>
    obtain ⟨piece, hw, rfl⟩ := map_eq_some_iff.1 hs
    exact onWrote_inv h hw ok
  | snapshot =>
    cases hs
    exact { h with }

/-- The invariant holds in every state of every run of a new torrent. -/
lemma run_inv {as : List PipelineAct} (h : Run (step sha1) anyStep (init t) as p) : Inv sha1 t p :=
  h.inv (fun hi _ hs => step_inv hi hs) (init_inv t)

/-! ## Owned pieces -/

lemma inFlight_pos_of_not_quiescent (h : ¬p.Quiescent) : ∃ i, 0 < p.inFlight i := by
  cases hv : p.verifying with
  | cons v vs => exact ⟨v.index, by simp only [inFlight, hv, countP_cons, decide_true, if_true]; omega⟩
  | nil =>
    cases hq : p.queue with
    | cons q qs => exact ⟨q.index, by simp only [inFlight, hq, countP_cons, decide_true, if_true]; omega⟩
    | nil =>
      cases hw : p.writing with
      | some w => exact ⟨w.index, by simp [inFlight, hw]⟩
      | none => exact absurd ⟨hv, hq, hw⟩ h

lemma inFlight_of_quiescent (h : p.Quiescent) (i : Nat) : p.inFlight i = 0 := by
  simp [inFlight, h.1, h.2.1, h.2.2]

/-- The bitfield that is announced and saved has the pieces `hasPiece` has. -/
lemma ourBitfield_get (tb : TorrentDownloadedState) (i : Nat) :
    tb.ourBitfield[i]? = some true ↔ tb.hasPiece i = true := by
  rw [ourBitfield, hasPiece, getElem?_map]
  cases tb.pieces[i]? <;> simp

/-- In every state of every run, the pieces reported as owned have all been verified and written
exactly when no piece is being hashed, waits for the writer or is being written. -/
theorem owned_secured_iff {as : List PipelineAct} (h : Run (step sha1) anyStep (init t) as p) :
    (∀ i, p.table.hasPiece i = true ∨ p.table.ourBitfield[i]? = some true →
      Secured sha1 t p i) ↔ p.Quiescent := by
  have hinv := run_inv h
  simp only [ourBitfield_get, or_self_iff]
  constructor
  · intro hall
    by_contra hnq
    obtain ⟨i, hi⟩ := inFlight_pos_of_not_quiescent hnq
    have hone : p.inFlight i = 1 := by
      have := hinv.once i
      omega
    obtain ⟨piece, hw, rfl, -⟩ := hall i ((hinv.owned i).2 (.inl hone))
    have := hinv.fresh piece hw
    omega
  · intro hq i hi
    rcases (hinv.owned i).1 hi with h1 | ⟨piece, hw, rfl⟩
    · rw [inFlight_of_quiescent hq] at h1
      omega
    · exact ⟨piece, hw, rfl, hinv.checked piece (mem_append_right _ hw)⟩

def pieceA : Torrent :=
  { infoHash := 1, pieceHashes := [0x86f7e437faa5a7fce15d1ddcb9eaeaea377667b8], pieceLength := 1,
    length := 1, files := [⟨[ascii "a"], 1, 0⟩], name := ascii "a", isPrivate := false }

/-- SHA-1 on the byte `a`. -/
def sha1A (buf : Bytes) : Digest :=
  if buf = ascii "a" then 0x86f7e437faa5a7fce15d1ddcb9eaeaea377667b8 else 0

def peerA : PeerAddr := ⟨.v4 0x0a000001, 6881⟩

/-- The byte arrives, passes and is written. -/
def storeA : List PipelineAct :=
  [.piece peerA 0 0 (ascii "a"), .verified 0 true, .recv, .wrote true, .snapshot]

def afterA (as : List PipelineAct) : Pipeline :=
  (exec (step sha1A) anyStep (init pieceA) as).getD (init pieceA)

theorem owned_secured_after_write : Run (step sha1A) anyStep (init pieceA) storeA (afterA storeA) ∧
      (afterA storeA).table.hasPiece 0 = true ∧ Secured sha1A pieceA (afterA storeA) 0 := by
  have hrun : Run (step sha1A) anyStep (init pieceA) storeA (afterA storeA) :=
    Run.of_exec (by decide)
  exact ⟨hrun, by decide, (owned_secured_iff hrun).2 (by decide) 0 (.inl (by decide))⟩

/-- The byte has arrived and its hash has not returned: the piece is reported as owned, served
and saved, and neither verified nor written. -/
theorem owned_before_verified :
    Run (step sha1A) anyStep (init pieceA) [.piece peerA 0 0 (ascii "a"), .snapshot]
        (afterA [.piece peerA 0 0 (ascii "a"), .snapshot]) ∧
      (afterA [.piece peerA 0 0 (ascii "a"), .snapshot]).table.hasPiece 0 = true ∧
      (afterA [.piece peerA 0 0 (ascii "a"), .snapshot]).snapshots = [[true]] ∧
      ¬Secured sha1A pieceA (afterA [.piece peerA 0 0 (ascii "a"), .snapshot]) 0 := by
  have hnone : (afterA [.piece peerA 0 0 (ascii "a"), .snapshot]).written = [] := by decide
  refine ⟨Run.of_exec (by decide), by decide, by decide, ?_⟩
  rintro ⟨piece, hw, -⟩
  rw [hnone] at hw
  cases hw

/-! ## Torrents with pieces from before

A torrent that is resumed owns pieces that no task of this run has written. What is left of the
invariant is that a written piece stays owned, and that no piece is on its way twice. -/

/-- What a step does to the pieces that are owned, on their way and written. -/
inductive Effect (p p' : Pipeline) : Prop where
  | stays (hown : ∀ j, p'.table.hasPiece j = p.table.hasPiece j)
    (hfly : ∀ j, p'.inFlight j ≤ p.inFlight j) (hw : p'.written = p.written)
  | starts (i : Nat) (hnot : p.table.hasPiece i = false)
    (hown : ∀ j, p'.table.hasPiece j = (p.table.hasPiece j || decide (i = j)))
    (hfly : ∀ j, p'.inFlight j = p.inFlight j + if i = j then 1 else 0)
    (hw : p'.written = p.written)
  | fails (i : Nat) (hown : ∀ j, i ≠ j → p'.table.hasPiece j = p.table.hasPiece j)
    (hfly : ∀ j, p'.inFlight j + (if i = j then 1 else 0) = p.inFlight j)
    (hw : p'.written = p.written)
  | wrote (piece : FullPiece) (hown : ∀ j, p'.table.hasPiece j = p.table.hasPiece j)
    (hfly : ∀ j, p'.inFlight j + (if piece.index = j then 1 else 0) = p.inFlight j)
    (hw : p'.written = p.written ++ [piece])

lemma hasPiece_removeDownloaded (h : tb.Indexed) {i j : Nat}
    (hij : i ≠ j) : (tb.removeDownloaded i).hasPiece j = tb.hasPiece j := by
  refine hasPiece_congr ?_
  rw [removeDownloaded_flagsAt]
  cases hj : tb.flagsAt j with
  | none => rfl
  | some f => rw [map_some, if_neg (by rw [h j f hj]; exact hij.symm)]

lemma onPiece_effect (p : Pipeline) (peer : PeerAddr) (index start : Nat) (data : Bytes) :
    Effect p (p.onPiece peer index start data) := by
  unfold onPiece
  have hsame := p.receive_flagsAt peer index start data
  generalize p.receive peer index start data = tb at hsame
  obtain ⟨hnone, hfl⟩ | ⟨pw, hsome, hpw, hd, hfl⟩ := tb.setDownloadedIfAllChunks_cases index
  · rw [← Prod.mk.eta (p := tb.setDownloadedIfAllChunks index), hnone]
    exact .stays (fun j => hasPiece_congr ((hfl j).trans (hsame j))) (fun _ => le_rfl) rfl
  · rw [← Prod.mk.eta (p := tb.setDownloadedIfAllChunks index), hsome]
    refine .starts index ?_ (fun j => ?_) (fun j => ?_) rfl
    · rw [← hasPiece_congr (hsame index), hasPiece, hpw]
      exact hd
    · rw [← hasPiece_congr (hsame j)]
      simp only [hasPiece_eq, hfl j]
      have hat : tb.flagsAt index = some pw.flags := by
        rw [flagsAt, hpw]
        rfl
      by_cases hij : index = j
      · subst hij
        simp [hat]
      · simp [hij]
    · simp only [inFlight, countP_append, countP_singleton, decide_eq_true_eq]
      omega

lemma onVerified_effect (hi : p.table.Indexed) (hv : p.verifying[n]? = some v) (ok : Bool) :
    Effect p ({ p with verifying := p.verifying.eraseIdx n }.onVerified v ok) := by
  have hfl := inFlight_eraseIdx hv
  have hclaim : ∀ j, (p.table.claimWrite v.index).1.hasPiece j = p.table.hasPiece j := by
    intro j
    rw [hasPiece_eq, hasPiece_eq, claimWrite_flagsAt, Option.map_map]
    refine congrArg (Option.getD · _) (congrArg (Option.map · _) (funext fun x => ?_))
    simp only [comp_apply]
    split <;> rfl
  cases ok with
  | false =>
    refine .fails v.index (fun j hij => ?_) hfl rfl
    simp only [onVerified, Bool.false_eq_true, if_false]
    exact (hasPiece_congr (releasePiece_flagsAt _ _ _)).trans (hasPiece_removeDownloaded hi hij)
  | true =>
    simp only [onVerified, if_true]
    split
    · refine .stays (fun j => ?_) (fun j => ?_) rfl
      · exact (hasPiece_congr (clearPieceChunks_flagsAt _ _ _)).trans (hclaim j)
      · have hj := hfl j
        simp only [inFlight, countP_append, countP_singleton, decide_eq_true_eq] at hj ⊢
        omega
    · refine .stays hclaim (fun j => ?_) rfl
      have hj := hfl j
      simp only [inFlight] at hj ⊢
      omega

lemma onWrote_effect {piece : FullPiece} (hi : p.table.Indexed) (hw : p.writing = some piece)
    (ok : Bool) : Effect p (p.onWrote piece ok) := by
  have hfl := inFlight_written hw
  cases ok with
  | false => exact .fails piece.index (fun j hij => hasPiece_removeDownloaded hi hij) hfl rfl
  | true => exact .wrote piece (fun _ => rfl) hfl rfl

lemma step_effect (hi : p.table.Indexed) (hs : step sha1 p a = some p') : Effect p p' := by
  cases a with
  | piece peer index start data =>
    cases hs
    exact p.onPiece_effect peer index start data
  | verified n joined =>
    obtain ⟨v, hv, rfl⟩ := map_eq_some_iff.1 hs
    exact onVerified_effect hi hv _
  | recv =>
    simp only [step] at hs
    split at hs <;> cases hs
    rename_i piece queue hw hq
    refine .stays (fun _ => rfl) (fun j => ?_) rfl
    simp only [inFlight, hw, hq, toList, countP_cons, countP_nil]
    omega
  | wrote ok =>
    obtain ⟨piece, hw, rfl⟩ := map_eq_some_iff.1 hs
    exact onWrote_effect hi hw ok
  | snapshot =>
    cases hs
    exact .stays (fun _ => rfl) (fun _ => le_rfl) rfl

lemma step_works (hs : step sha1 p a = some p') : p'.table.works = p.table.works := by
  cases a with
  | piece peer index start data =>
    cases hs
    have h : ((p.receive peer index start data).setDownloadedIfAllChunks index).1.works =
        p.table.works := by
      simp [receive]
      rfl
    unfold onPiece
    split <;> (rename_i heq; rw [heq] at h; exact h)
  | verified n joined =>
    obtain ⟨v, -, rfl⟩ := map_eq_some_iff.1 hs
    unfold onVerified
    split
    · dsimp only
      split <;> simp
    · simp
  | recv =>
    simp only [step] at hs
    split at hs <;> cases hs
    rfl
  | wrote ok =>
    obtain ⟨piece, -, rfl⟩ := map_eq_some_iff.1 hs
    unfold onWrote
    split
    · rfl
    · simp
  | snapshot =>
    cases hs
    rfl

lemma step_writer (hs : step sha1 p a = some p') :
    (∃ piece, a = .wrote true ∧ p.writing = some piece ∧ p'.writing = none ∧
      p'.written = p.written ++ [piece]) ∨
    (a ≠ .wrote true ∧ p'.written = p.written ∧
      (a ≠ .recv → p.writing = none → p'.writing = none)) := by
  cases a with
  | piece peer index start data =>
    cases hs
    refine .inr ⟨nofun, ?_, fun _ hw => ?_⟩
    · unfold onPiece
      split <;> rfl
    · unfold onPiece
      split <;> exact hw
  | verified n joined =>
    obtain ⟨v, -, rfl⟩ := map_eq_some_iff.1 hs
    refine .inr ⟨nofun, ?_, fun _ hw => ?_⟩
    · unfold onVerified
      split
      · dsimp only
        split <;> rfl
      · rfl
    · unfold onVerified
      split
      · dsimp only
        split <;> exact hw
      · exact hw
  | recv =>
    simp only [step] at hs
    split at hs <;> cases hs
    exact .inr ⟨nofun, rfl, fun h => absurd rfl h⟩
  | wrote ok =>
    obtain ⟨piece, hw, rfl⟩ := map_eq_some_iff.1 hs
    cases ok with
    | true => exact .inl ⟨piece, rfl, hw, rfl, rfl⟩
    | false => exact .inr ⟨nofun, rfl, fun _ _ => rfl⟩
  | snapshot =>
    cases hs
    exact .inr ⟨nofun, rfl, fun _ hw => hw⟩

/-- Where pieces come from: a piece in `own` is there from the start, the others are written once,
or on their way once, and all of these are owned. -/
structure Held (own : Nat → Bool) (p : Pipeline) : Prop where
  indexed : p.table.Indexed
  once : ∀ i, (own i).toNat + p.written.countP (·.index = i) + p.inFlight i ≤
    (p.table.hasPiece i).toNat

variable {own : Nat → Bool}

lemma Held.kept (h : Held own p) (piece : FullPiece) (hp : piece ∈ p.written) :
    p.table.hasPiece piece.index = true := by
  have hpos := countP_written_pos.2 ⟨piece, hp, rfl⟩
  have hle := h.once piece.index
  by_contra hnot
  simp only [Bool.not_eq_true] at hnot
  rw [hnot, Bool.toNat_false] at hle
  omega

def resumed (t : Torrent) (sequential : Bool) (priorities : List FilePriority)
    (bits : List Bool) : Pipeline :=
  { table := ((new t.piecesOfWork).installContent t sequential
      priorities).1.applyBitfield bits }

variable {sequential : Bool} {priorities : List FilePriority} {bits : List Bool}

lemma resumed_works : (resumed t sequential priorities bits).table.works =
    t.piecesOfWork.map PieceWorkState.pieceWork := by
  rw [resumed, applyBitfield_works, installContent_works]
  rfl

lemma resumed_indexed : (resumed t sequential priorities bits).table.Indexed := by
  refine TorrentDownloadedState.Indexed.of_works (t := .new t.piecesOfWork) ?_ resumed_works
  exact fun _ _ hf => (Torrent.piecesOfWork_flagsAt hf).1

lemma resumed_held (h : ∀ i, own i ≤ (resumed t sequential priorities bits).table.hasPiece i) :
    Held own (resumed t sequential priorities bits) :=
  ⟨resumed_indexed, fun i => Bool.toNat_le_toNat (h i)⟩

lemma Held.step (h : Held own p) (hs : step sha1 p a = some p') : Held own p' := by
  refine ⟨h.indexed.of_works (step_works hs), fun j => ?_⟩
  have hj := h.once j
  cases step_effect h.indexed hs with
  | stays hown hfly hw =>
    have := hfly j
    rw [hown, hw]
    omega
  | starts i hnot hown hfly hw =>
    rw [hown, hfly, hw]
    rcases eq_or_ne i j with rfl | hne
    · rw [hnot] at hj
      simp only [decide_true, Bool.or_true, Bool.toNat_true, Bool.toNat_false, if_true] at hj ⊢
      omega
    · simpa [hne] using hj
  | fails i hown hfly hw =>
    have hfly := hfly j
    rw [hw]
    rcases eq_or_ne i j with rfl | hne
    · -- the piece was on its way, so it came from nowhere else
      have := Bool.toNat_le (p.table.hasPiece i)
      rw [if_pos rfl] at hfly
      omega
    · rw [hown j hne]
      omega
  | wrote piece hown hfly hw =>
    have hfly := hfly j
    simp only [hown, hw, countP_append, countP_singleton, decide_eq_true_eq]
    omega

/-- Whatever order blocks, hash results and writes come in, a piece that was there from the start is
never written, and no piece is written twice. -/
theorem written_once {as : List PipelineAct}
    (h : Run (step sha1) anyStep (resumed t sequential priorities bits) as p) (i : Nat) :
    ((resumed t sequential priorities bits).table.hasPiece i).toNat +
      p.written.countP (·.index = i) + p.inFlight i ≤ (p.table.hasPiece i).toNat :=
  (h.inv (fun hp _ hs => hp.step hs) (resumed_held fun _ => le_rfl)).once i

theorem written_once_stored :
    ∃ p, Run (step sha1A) anyStep (resumed pieceA false [] [false]) storeA p ∧
      p.written.length = 1 ∧ p.written.countP (·.index = 0) + p.inFlight 0 ≤ 1 := by
  have hrun : Run (step sha1A) anyStep (resumed pieceA false [] [false]) storeA _ := .of_isSome
  have hone := written_once hrun 0
  have := hone.trans (Bool.toNat_le _)
  exact ⟨_, hrun, by decide, by omega⟩

end Pipeline

end BitRev
