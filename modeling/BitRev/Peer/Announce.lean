import BitRev.Framework.Broadcast
import BitRev.Peer.Haves
import BitRev.Pieces.Pipeline

/-!
# How a peer hears of new pieces

The piece writer of a torrent (`add_torrent_meta`) broadcasts the index of each piece it has
written. A peer's connection subscribes to the broadcast, sends the availability message it opens
with, and then its writer task (`manage_established`) sends what it receives from the broadcast and
what its queue holds. The connections of a magnet are there before its metadata, and send a second
availability message when it is known.

The tasks take turns in any order. `Announce.peer` is one of the connections; the others only have
receivers of their own.
-/

namespace BitRev

open List Option

/-- The message says that its sender has piece `i`. -/
def AvailabilityMessage.tells (m : AvailabilityMessage) (i : Nat) : Bool :=
  match m with
  | .havePiece index => index = i
  | .bitfield bytes => (⟨bytes⟩ : Bitfield).hasPiece i
  | .haveAll => true
  | .haveNone => false

/-- Where the requester task is with the metadata (`await_metadata_ready`). -/
inductive MetadataWait where
  | start
  | waiting
  | ready
  deriving DecidableEq

structure Link where
  known : PeerHave
  /-- The position of `have_rx`, once subscribed. -/
  receiver : Option Nat := none
  /-- The opening message has been sent and the writer task runs. -/
  established : Bool := false
  metadata : MetadataWait := .start
  /-- The availability messages in the queue of the writer task. -/
  queue : List AvailabilityMessage := []
  /-- The availability messages the peer has been sent so far. -/
  sent : List AvailabilityMessage := []
  /-- The availability messages the peer has sent so far. -/
  heard : List AvailabilityMessage := []
  /-- The pieces written since the peer is connected. -/
  written : List Nat := []

structure Announce where
  /-- The torrent's pieces, once its metadata is known. -/
  pipeline : Option Pipeline := none
  availability : Availability := .new 0
  /-- The piece the writer has written and has not broadcast. -/
  announcing : Option Nat := none
  channel : Broadcast Nat
  peer : Option Link := none

inductive AnnounceAct where
  /-- A `Piece` message, the hash of a piece, or a turn of the piece writer. -/
  | pipeline (a : PipelineAct)
  | broadcast
  /-- The metadata is known; `bits` are the pieces that are there already. -/
  | promote (torrent : Torrent) (sequential : Bool) (priorities : List FilePriority)
      (bits : List Bool)
  | connect (fast : Bool)
  | subscribe
  | sendInitial (fast : Bool)
  | requester
  | metadataReady (fast : Bool)
  | message (m : AvailabilityMessage)
  /-- The writer task receives from the broadcast. -/
  | recvHave
  /-- The writer task takes a message from its queue. -/
  | recvQueue
  deriving DecidableEq

namespace Announce

def addTorrent (torrent : Torrent) (sequential : Bool) (priorities : List FilePriority)
    (bits : List Bool) : Announce :=
  { pipeline := some (.resumed torrent sequential priorities bits)
    availability := .new torrent.piecesOfWork.length
    channel := { capacity := 128 } }

def addMagnet : Announce := { channel := { capacity := 8 } }

/-- `downloaded()`: a table without pieces until the metadata is known. -/
def downloaded (s : Announce) : TorrentDownloadedState :=
  (s.pipeline.map (·.table)).getD (.new [])

def setPeer (s : Announce) (l : Link) : Announce := { s with peer := some l }

section Step

variable (sha1 : Bytes → Digest) (s : Announce)

/-- A turn of the pipeline. The writer receives no piece before it has broadcast the last one. -/
def onPipeline (a : PipelineAct) (p : Pipeline) : Option Announce :=
  if a = .recv ∧ s.announcing.isSome = true then none
  else
    (p.step sha1 a).map fun p' =>
      if a = .wrote true then
        { s with
          pipeline := some p'
          announcing := p.writing.map (·.index)
          peer := s.peer.map fun l =>
            { l with written := l.written ++ (p.writing.map (·.index)).toList } }
      else { s with pipeline := some p' }

def sendInitial (fast : Bool) (l : Link) : Option Announce :=
  if l.established || l.receiver.isNone then none
  else
    some (s.setPeer
      { l with established := true, sent := l.sent ++ (s.downloaded.sendInitialBitfield fast).toList })

def shouldTransmitHave (l : Link) (i : Nat) : Bool := !l.known.bitfield.hasPiece i

/-- Of the two errors of `recv`, the writer task ignores that it has lagged. -/
def recvHave (l : Link) : Option Announce :=
  if !l.established then none
  else
    l.receiver.bind fun next =>
      match s.channel.recv next with
      | .empty => none
      | .lagged next => some (s.setPeer { l with receiver := some next })
      | .value i next =>
        some (s.setPeer
          { l with
            receiver := some next
            sent := if shouldTransmitHave l i then l.sent ++ [.havePiece i] else l.sent })

def recvQueue (l : Link) : Option Announce :=
  match l.established, l.queue with
  | true, m :: queue => some (s.setPeer { l with queue, sent := l.sent ++ [m] })
  | _, _ => none

def requester (l : Link) : Option Announce :=
  if l.metadata = .start then
    some (s.setPeer
      { l with metadata := if s.downloaded.pieceCount > 0 then .ready else .waiting })
  else none

def metadataReady (fast : Bool) (l : Link) : Option Announce :=
  if l.metadata = .waiting ∧ s.downloaded.pieceCount > 0 then
    let (availability, known) := l.known.applyHaveHint s.availability
    some ({ s with availability }.setPeer
      { l with
        known
        metadata := .ready
        queue := l.queue ++ (s.downloaded.sendPostMetadataBitfield fast).toList })
  else none

def step : AnnounceAct → Option Announce
  | .pipeline a => s.pipeline.bind (s.onPipeline sha1 a)
  | .broadcast =>
    s.announcing.map fun i => { s with announcing := none, channel := s.channel.send i }
  | .promote torrent sequential priorities bits =>
    if s.pipeline.isSome then none
    else
      some { s with
        pipeline := some (.resumed torrent sequential priorities bits)
        availability := .new torrent.piecesOfWork.length }
  | .connect fast => if s.peer.isSome then none else some (s.setPeer { known := { fast } })
  | .subscribe =>
    s.peer.bind fun l =>
      if l.receiver.isSome then none
      else some (s.setPeer { l with receiver := some s.channel.subscribe })
  | .sendInitial fast => s.peer.bind (s.sendInitial fast)
  | .requester => s.peer.bind s.requester
  | .metadataReady fast => s.peer.bind (s.metadataReady fast)
  | .message m =>
    s.peer.bind fun l =>
      (l.known.receive s.availability m).map fun (availability, known) =>
        { s with availability }.setPeer { l with known, heard := l.heard ++ [m] }
  | .recvHave => s.peer.bind s.recvHave
  | .recvQueue => s.peer.bind s.recvQueue

end Step

def KeepsUp (s : Announce) (a : AnnounceAct) : Prop :=
  a = .broadcast → ∀ l ∈ s.peer, ∀ next ∈ l.receiver,
    (s.channel.pending next).length < s.channel.capacity

instance (s : Announce) (a : AnnounceAct) : Decidable (s.KeepsUp a) :=
  inferInstanceAs (Decidable (_ → _))

end Announce

/-! ## What a peer has reported -/

@[simp] def PeerHaveHint.tells : PeerHaveHint → Nat → Bool
  | .unknown, _ | .none, _ => false
  | .all, _ => true
  | .bitfield bytes, i => (⟨bytes⟩ : Bitfield).hasPiece i
  | .haves indices, i => i ∈ indices

namespace PeerHave

def Reported (heard : List AvailabilityMessage) (p : PeerHave) : Prop :=
  ∀ i, p.bitfield.hasPiece i ∨ p.hint.tells i → heard.any (·.tells i)

variable {heard : List AvailabilityMessage} {a a' : Availability} {p p' : PeerHave}

lemma any_snoc (heard : List AvailabilityMessage) (m : AvailabilityMessage) (i : Nat) :
    (heard ++ [m]).any (·.tells i) = (heard.any (·.tells i) || m.tells i) := by
  simp

lemma recordIndex_tells {hint : PeerHaveHint} {i j : Nat}
    (h : (hint.recordIndex j).tells i) : hint.tells i ∨ j = i := by
  cases hint with
  | unknown =>
    simp only [PeerHaveHint.recordIndex, PeerHaveHint.tells, mem_singleton, decide_eq_true_eq] at h
    exact .inr h.symm
  | haves indices =>
    simp only [PeerHaveHint.recordIndex] at h
    split at h
    · exact .inl h
    · simp only [PeerHaveHint.tells, mem_append, mem_singleton, decide_eq_true_eq] at h ⊢
      exact h.imp id Eq.symm
  | all | none | bitfield bytes => exact .inl h

lemma applyPeerHave_has {b : Bitfield} {i j : Nat}
    (h : (a.applyPeerHave b j).2.hasPiece i) : b.hasPiece i ∨ j = i := by
  rw [← (Bitfield.applyPeerHave_agree a b j).hasPiece i (Nat.lt_succ_self i),
    Bitfield.hasPiece_setPiece, Bool.or_eq_true, decide_eq_true_eq] at h
  exact h.imp id And.left

lemma Reported.snapshot (h : Reported heard p) {m : AvailabilityMessage} {hint : PeerHaveHint}
    {next : Bitfield} (hs : p.snapshot a hint next = (a', p'))
    (hhint : ∀ i, hint.tells i → m.tells i)
    (hnext : ∀ i, next.hasPiece i → m.tells i) : Reported (heard ++ [m]) p' := by
  intro i hi
  rw [any_snoc, Bool.or_eq_true]
  unfold PeerHave.snapshot at hs
  split at hs <;> cases hs
  · rcases hi with hi | hi
    · exact .inl (h i (.inl hi))
    · exact .inr (hhint i hi)
  · rcases hi with hi | hi
    · exact .inr (hnext i hi)
    · exact .inl (h i (.inr hi))

lemma Reported.receive (h : Reported heard p) {m : AvailabilityMessage}
    (hr : p.receive a m = some (a', p')) : Reported (heard ++ [m]) p' := by
  cases m with
  | havePiece j =>
    intro i hi
    rw [any_snoc, Bool.or_eq_true]
    simp only [PeerHave.receive, some.injEq] at hr
    split at hr
    · cases hr
      rcases hi with hi | hi
      · exact .inl (h i (.inl hi))
      · exact (recordIndex_tells hi).imp (fun hi => h i (.inr hi)) decide_eq_true
    · cases hr
      rcases hi with hi | hi
      · exact (applyPeerHave_has hi).imp (fun hi => h i (.inl hi)) decide_eq_true
      · exact .inl (h i (.inr hi))
  | bitfield bytes => exact h.snapshot (some.inj hr) (fun _ hi => hi) fun _ hi => hi
  | haveAll =>
    simp only [PeerHave.receive, ite_none_right_eq_some, some.injEq] at hr
    exact h.snapshot hr.2 (fun _ _ => rfl) fun _ _ => rfl
  | haveNone =>
    simp only [PeerHave.receive, ite_none_right_eq_some, some.injEq] at hr
    refine h.snapshot hr.2 (fun _ hi => hi) fun i hi => ?_
    rw [Bitfield.hasPiece_withPieceCount] at hi
    cases hi

lemma foldl_applyPeerHave_has {indices : List Nat} {x : Availability × Bitfield} {i : Nat}
    (h : (indices.foldl (fun ab j => ab.1.applyPeerHave ab.2 j) x).2.hasPiece i) :
    x.2.hasPiece i ∨ i ∈ indices := by
  induction indices generalizing x with
  | nil => exact .inl h
  | cons j indices ih =>
    rw [foldl_cons] at h
    rcases ih h with h | h
    · refine (applyPeerHave_has h).imp id fun hj : j = i => ?_
      exact hj ▸ mem_cons_self
    · exact .inr (mem_cons_of_mem j h)

lemma Reported.applyHaveHint (h : Reported heard p) (a : Availability) :
    Reported heard (p.applyHaveHint a).2 := by
  unfold PeerHave.applyHaveHint
  split
  · exact h
  · cases hh : p.hint with
    | unknown => exact h
    | all => exact fun i _ => h i (.inr (by rw [hh]; rfl))
    | none =>
      intro i hi
      simp at hi
    | bitfield bytes =>
      intro i hi
      refine h i (.inr ?_)
      rw [hh]
      simpa using hi
    | haves indices =>
      intro i hi
      have hi' := hi.resolve_right (by simp)
      rcases foldl_applyPeerHave_has hi' with hi' | hi'
      · exact h i (.inl hi')
      · refine h i (.inr ?_)
        rw [hh]
        exact decide_eq_true hi'

end PeerHave

/-! ## What a peer has been told -/

namespace Announce

lemma sendInitialBitfield_tells {t : TorrentDownloadedState} {i : Nat} (h : t.hasPiece i)
    (fast : Bool) : (t.sendInitialBitfield fast).toList.any (·.tells i) := by
  have hcount : t.pieceCount ≠ 0 := by
    intro hzero
    rw [t.hasPiece_of_pieceCount_le (by omega)] at h
    cases h
  have hbits : t.ourBits.hasPiece i := (t.hasPiece_ourBits i).trans h
  have hempty : t.ourBits.isEmpty = false := by
    rw [Bool.eq_false_iff, Ne, Bitfield.isEmpty_iff]
    intro hall
    rw [hall i] at hbits
    cases hbits
  rw [TorrentDownloadedState.sendInitialBitfield, if_neg hcount, hempty]
  cases fast with
  | false => simpa [AvailabilityMessage.tells] using hbits
  | true =>
    cases t.isComplete
    · simpa [AvailabilityMessage.tells] using hbits
    · rfl

def Wrote (s : Announce) (i : Nat) : Prop :=
  ∃ p ∈ s.pipeline, ∃ piece ∈ p.written, piece.index = i

/-- What holds of the connection: each piece written since it is there is about to be broadcast,
waits at the receiver, or is known to the peer. -/
structure Informed (s : Announce) (l : Link) : Prop where
  reported : l.known.Reported l.heard
  position : ∀ next ∈ l.receiver, next ≤ s.channel.sent.length
  room : ∀ next ∈ l.receiver, (s.channel.pending next).length ≤ s.channel.capacity
  subscribed : l.established → l.receiver.isSome
  wrote : ∀ i ∈ l.written, s.Wrote i
  told : l.established → ∀ i ∈ l.written,
    s.announcing = some i ∨ (∃ next ∈ l.receiver, i ∈ s.channel.pending next) ∨
      l.sent.any (·.tells i) ∨ l.heard.any (·.tells i)

structure Inv (s : Announce) : Prop where
  held : ∀ p ∈ s.pipeline, p.Held fun _ => false
  resting : s.announcing.isSome → ∀ p ∈ s.pipeline, p.writing = none
  informed : ∀ l ∈ s.peer, s.Informed l

variable {sha1 : Bytes → Digest} {s s' : Announce} {l l' : Link}

lemma Inv.wrote_owned (h : Inv s) {i : Nat} (hi : s.Wrote i) : s.downloaded.hasPiece i := by
  obtain ⟨p, hp, piece, hpiece, rfl⟩ := hi
  rw [downloaded, mem_def.1 hp]
  exact (h.held p hp).kept piece hpiece

/-- Only the connection changes. -/
lemma Inv.setPeer (h : Inv s) (hl : s.Informed l) : Inv (s.setPeer l) :=
  ⟨h.held, h.resting, fun l' hl' => by
    cases hl'
    exact { hl with }⟩

lemma addTorrent_inv (torrent : Torrent) (sequential : Bool) (priorities : List FilePriority)
    (bits : List Bool) : Inv (addTorrent torrent sequential priorities bits) :=
  ⟨fun p hp => by
    cases hp
    exact Pipeline.resumed_held fun _ => Bool.false_le _, nofun, nofun⟩

lemma addMagnet_inv : Inv addMagnet := ⟨nofun, nofun, nofun⟩

/-- What is told stays told while the pipeline goes on and nothing is written. -/
lemma Informed.congr (h : s.Informed l) (hc : s'.channel = s.channel)
    (ha : s'.announcing = s.announcing) (hw : ∀ i, s.Wrote i → s'.Wrote i) : s'.Informed l where
  __ := h
  position := hc ▸ h.position
  room := hc ▸ h.room
  wrote i hi := hw i (h.wrote i hi)
  told he i hi := by
    rw [hc, ha]
    exact h.told he i hi

/-- A piece is written; it is the one to be broadcast. -/
lemma Informed.writes (h : s.Informed l) {i : Nat} (hc : s'.channel = s.channel)
    (hnone : s.announcing = none) (ha : s'.announcing = some i) (hw : ∀ j, s.Wrote j → s'.Wrote j)
    (hi : s'.Wrote i) : s'.Informed { l with written := l.written ++ [i] } where
  __ := h
  position := hc ▸ h.position
  room := hc ▸ h.room
  wrote := forall_mem_append.2 ⟨fun j hj => hw j (h.wrote j hj), forall_mem_singleton.2 hi⟩
  told he j hj := by
    rcases mem_append.1 hj with hj | hj
    · rcases h.told he j hj with hann | htold
      · rw [hnone] at hann
        cases hann
      · exact .inr (hc ▸ htold)
    · exact .inl (mem_singleton.1 hj ▸ ha)

section

variable (h : Inv s)
include h

lemma Inv.onPipeline {a : PipelineAct} {p : Pipeline} (hp : s.pipeline = some p)
    (hs : s.onPipeline sha1 a p = some s') : Inv s' := by
  unfold Announce.onPipeline at hs
  split at hs
  · cases hs
  · rename_i hrecv
    obtain ⟨p', hstep, rfl⟩ := map_eq_some_iff.1 hs
    have hheld := (h.held p hp).step hstep
    have hgrow : ∀ {t : Announce} {l : List FullPiece}, t.pipeline = some p' →
        p'.written = p.written ++ l → ∀ i, s.Wrote i → t.Wrote i := by
      rintro t l ht hw i ⟨q, hq, piece, hpiece, rfl⟩
      cases hp.symm.trans hq
      exact ⟨p', ht, piece, hw ▸ mem_append_left l hpiece, rfl⟩
    obtain ⟨piece, rfl, hwriting, hdone, hw⟩ | ⟨hnot, hw, hrest⟩ := Pipeline.step_writer hstep
    · have hnone : s.announcing = none := by
        by_contra hsome
        have := h.resting (isSome_iff_ne_none.2 hsome) p hp
        rw [hwriting] at this
        cases this
      rw [if_pos rfl, hwriting]
      refine ⟨fun q hq => ?_, fun _ q hq => ?_, fun l hl => ?_⟩
      · cases hq
        exact hheld
      · cases hq
        exact hdone
      · obtain ⟨l₀, hl₀, rfl⟩ := map_eq_some_iff.1 hl
        exact (h.informed l₀ hl₀).writes rfl hnone rfl (hgrow rfl hw)
          ⟨p', rfl, piece, hw ▸ mem_append_right _ mem_cons_self, rfl⟩
    · rw [if_neg hnot]
      refine ⟨fun q hq => ?_, fun hann q hq => ?_, fun l hl => ?_⟩
      · cases hq
        exact hheld
      · cases hq
        refine hrest (fun ha => hrecv ⟨ha, hann⟩) (h.resting hann p hp)
      · exact (h.informed l hl).congr rfl rfl (hgrow rfl (hw.trans (append_nil _).symm))

lemma Inv.broadcast {i : Nat} (ha : s.announcing = some i) (hok : s.KeepsUp .broadcast) :
    Inv { s with announcing := none, channel := s.channel.send i } := by
  refine ⟨h.held, nofun, fun l hl => ?_⟩
  have hl' := h.informed l hl
  have hsend : ∀ next ∈ l.receiver,
      (s.channel.send i).pending next = s.channel.pending next ++ [i] := fun next hn =>
    Broadcast.pending_send (hl'.position next hn) i
  refine ⟨hl'.reported, fun next hn => ?_, fun next hn => ?_, hl'.subscribed, hl'.wrote,
    fun he j hj => ?_⟩
  · exact (hl'.position next hn).trans (by simp [Broadcast.send])
  · rw [hsend next hn, length_append]
    exact hok rfl l hl next hn
  · rcases hl'.told he j hj with hann | ⟨next, hn, hpend⟩ | htold
    · -- the piece that was about to be broadcast now waits at the receiver
      obtain ⟨next, hn⟩ := isSome_iff_exists.1 (hl'.subscribed he)
      cases ha.symm.trans hann
      exact .inr (.inl ⟨next, hn, hsend next hn ▸ mem_append_right _ mem_cons_self⟩)
    · exact .inr (.inl ⟨next, hn, hsend next hn ▸ mem_append_left _ hpend⟩)
    · exact .inr (.inr htold)

lemma Inv.sendInitial (hl : s.peer = some l) {fast : Bool} (hs : s.sendInitial fast l = some s') :
    Inv s' := by
  unfold Announce.sendInitial at hs
  split_ifs at hs with hnot
  cases hs
  have hl' := h.informed l hl
  simp only [Bool.or_eq_true, not_or, isNone_iff_eq_none] at hnot
  refine h.setPeer ⟨hl'.reported, hl'.position, hl'.room, fun _ => ?_, hl'.wrote,
    fun _ i hi => ?_⟩
  · exact isSome_iff_ne_none.2 hnot.2
  · have hown := h.wrote_owned (hl'.wrote i hi)
    refine .inr (.inr (.inl ?_))
    rw [any_append, sendInitialBitfield_tells hown fast, Bool.or_true]

lemma Inv.recvHave (hl : s.peer = some l) (hs : s.recvHave l = some s') : Inv s' := by
  unfold Announce.recvHave at hs
  split_ifs at hs
  have hl' := h.informed l hl
  obtain ⟨next, hn, hs⟩ := bind_eq_some_iff.1 hs
  split at hs
  · cases hs
  · rename_i hlag
    exact absurd hlag (Broadcast.recv_ne_lagged (hl'.room next hn))
  · rename_i i next' hval
    cases hs
    obtain ⟨hpend, hle⟩ := Broadcast.recv_value hval
    refine h.setPeer ⟨hl'.reported, fun n hn' => ?_, fun n hn' => ?_, fun _ => rfl, hl'.wrote,
      fun he j hj => ?_⟩
    · cases hn'
      exact hle
    · cases hn'
      have hroom := hl'.room next hn
      rw [hpend, length_cons] at hroom
      omega
    · rcases hl'.told he j hj with hann | ⟨n, hn', hmem⟩ | hsent | hheard
      · exact .inl hann
      · cases hn.symm.trans hn'
        rw [hpend] at hmem
        rcases mem_cons.1 hmem with rfl | hmem
        · -- sent now, or the stored bitfield has it and so the peer has reported it
          cases hb : l.known.bitfield.hasPiece j with
          | true => exact .inr (.inr (.inr (hl'.reported j (.inl hb))))
          | false =>
            refine .inr (.inr (.inl ?_))
            simp [shouldTransmitHave, hb, AvailabilityMessage.tells]
        · exact .inr (.inl ⟨next', rfl, hmem⟩)
      · refine .inr (.inr (.inl ?_))
        dsimp only
        split
        · rw [any_append, hsent, Bool.true_or]
        · exact hsent
      · exact .inr (.inr (.inr hheard))

lemma Inv.recvQueue (hl : s.peer = some l) (hs : s.recvQueue l = some s') : Inv s' := by
  unfold Announce.recvQueue at hs
  split at hs
  · cases hs
    have hl' := h.informed l hl
    refine h.setPeer ⟨hl'.reported, hl'.position, hl'.room, hl'.subscribed, hl'.wrote,
      fun he i hi => ?_⟩
    refine (hl'.told he i hi).imp_right (Or.imp_right (Or.imp_left fun hsent => ?_))
    rw [any_append, hsent, Bool.true_or]
  · cases hs

lemma Inv.step {a : AnnounceAct} (hok : s.KeepsUp a) (hs : s.step sha1 a = some s') : Inv s' := by
  cases a with
  | pipeline a =>
    obtain ⟨p, hp, hs⟩ := bind_eq_some_iff.1 hs
    exact h.onPipeline hp hs
  | broadcast =>
    obtain ⟨i, hi, rfl⟩ := map_eq_some_iff.1 hs
    exact h.broadcast hi hok
  | promote torrent sequential priorities bits =>
    simp only [Announce.step, ite_none_left_eq_some, some.injEq] at hs
    obtain ⟨hnone, rfl⟩ := hs
    have hnone : s.pipeline = none := by simpa using hnone
    refine ⟨fun p hp => ?_, fun _ p hp => ?_, fun l hl => (h.informed l hl).congr rfl rfl ?_⟩
    · cases hp
      exact Pipeline.resumed_held fun _ => Bool.false_le _
    · cases hp
      rfl
    · rintro i ⟨p, hp, -⟩
      rw [hnone] at hp
      cases hp
  | connect fast =>
    simp only [Announce.step, ite_none_left_eq_some, some.injEq] at hs
    obtain ⟨-, rfl⟩ := hs
    refine h.setPeer ⟨fun i hi => ?_, nofun, nofun, nofun, nofun, nofun⟩
    simp at hi
  | subscribe =>
    obtain ⟨l, hl, hs⟩ := bind_eq_some_iff.1 hs
    simp only [ite_none_left_eq_some, some.injEq] at hs
    obtain ⟨hnone, rfl⟩ := hs
    have hl' := h.informed l hl
    refine h.setPeer ⟨hl'.reported, fun n hn => ?_, fun n hn => ?_, fun _ => rfl, hl'.wrote,
      fun he => absurd (hl'.subscribed he) hnone⟩
    · cases hn
      exact le_rfl
    · cases hn
      simp
  | sendInitial fast =>
    obtain ⟨l, hl, hs⟩ := bind_eq_some_iff.1 hs
    exact h.sendInitial hl hs
  | requester =>
    obtain ⟨l, hl, hs⟩ := bind_eq_some_iff.1 hs
    simp only [Announce.requester, ite_none_right_eq_some, some.injEq] at hs
    obtain ⟨-, rfl⟩ := hs
    have hl' := h.informed l hl
    exact h.setPeer { hl' with }
  | metadataReady fast =>
    obtain ⟨l, hl, hs⟩ := bind_eq_some_iff.1 hs
    simp only [Announce.metadataReady, ite_none_right_eq_some, some.injEq] at hs
    obtain ⟨-, rfl⟩ := hs
    have hl' := h.informed l hl
    have h' : Inv { s with availability := (l.known.applyHaveHint s.availability).1 } :=
      ⟨h.held, h.resting, fun l hl => (h.informed l hl).congr rfl rfl fun _ => id⟩
    exact h'.setPeer ⟨hl'.reported.applyHaveHint _, hl'.position, hl'.room, hl'.subscribed,
      hl'.wrote, hl'.told⟩
  | message m =>
    obtain ⟨l, hl, hs⟩ := bind_eq_some_iff.1 hs
    obtain ⟨⟨availability, known⟩, hr, rfl⟩ := map_eq_some_iff.1 hs
    have hl' := h.informed l hl
    have h' : Inv { s with availability } :=
      ⟨h.held, h.resting, fun l hl => (h.informed l hl).congr rfl rfl fun _ => id⟩
    refine h'.setPeer ⟨hl'.reported.receive hr, hl'.position, hl'.room, hl'.subscribed,
      hl'.wrote, fun he i hi => ?_⟩
    refine (hl'.told he i hi).imp_right (Or.imp_right (Or.imp_right fun hheard => ?_))
    rw [any_append, hheard, Bool.true_or]
  | recvHave =>
    obtain ⟨l, hl, hs⟩ := bind_eq_some_iff.1 hs
    exact h.recvHave hl hs
  | recvQueue =>
    obtain ⟨l, hl, hs⟩ := bind_eq_some_iff.1 hs
    exact h.recvQueue hl hs

end

def Start (s : Announce) : Prop :=
  s = addMagnet ∨ ∃ torrent sequential priorities bits,
    s = addTorrent torrent sequential priorities bits

/-- In every run in which the peer's receiver has room at each broadcast: when the piece writer has
broadcast what it has written and the writer task of the peer has received everything, the peer has
been told of each piece written since it is connected, or has itself reported the piece. -/
theorem written_told {s₀ s : Announce} {as : List AnnounceAct} {l : Link} {next : Nat}
    (hstart : s₀.Start) (h : Run (step sha1) KeepsUp s₀ as s) (hl : s.peer = some l)
    (he : l.established) (hn : l.receiver = some next)
    (hdone : s.announcing = none) (hdrained : s.channel.pending next = []) :
    ∀ i ∈ l.written, l.sent.any (·.tells i) ∨ l.heard.any (·.tells i) := by
  have hinv₀ : Inv s₀ := by
    rcases hstart with rfl | ⟨torrent, sequential, priorities, bits, rfl⟩
    · exact addMagnet_inv
    · exact addTorrent_inv torrent sequential priorities bits
  have hinv : Inv s := h.inv (fun hi hok hs => hi.step hok hs) hinv₀
  intro i hi
  rcases (hinv.informed l hl).told he i hi with hann | ⟨n, hn', hmem⟩ | htold
  · rw [hdone] at hann
    cases hann
  · cases hn.symm.trans hn'
    rw [hdrained] at hmem
    cases hmem
  · exact htold

def piecesA (n : Nat) : Torrent :=
  { Pipeline.pieceA with
    pieceHashes := List.replicate n 0x86f7e437faa5a7fce15d1ddcb9eaeaea377667b8
    length := n
    files := [⟨[ascii "a"], n, 0⟩] }

def metadataLater (n : Nat) : List AnnounceAct :=
  [.connect true, .subscribe, .requester, .sendInitial true, .promote (piecesA n) false [] [],
    .metadataReady true, .recvQueue]

/-- Piece `i` arrives, passes, is written and broadcast. -/
def storeA (i : Nat) : List AnnounceAct :=
  [.pipeline (.piece Pipeline.peerA i 0 (ascii "a")), .pipeline (.verified 0 true),
    .pipeline .recv, .pipeline (.wrote true), .broadcast]

def toldOne : List AnnounceAct := metadataLater 1 ++ storeA 0 ++ [.recvHave]

theorem written_told_one :
    ∃ s l, Run (step Pipeline.sha1A) KeepsUp addMagnet toldOne s ∧ s.peer = some l ∧
      0 ∈ l.written ∧ l.heard = [] ∧ l.sent.any (·.tells 0) :=
  have hrun := Run.of_isSome
  have hl := eq_some_get
  ⟨_, _, hrun, hl, by decide +kernel, by decide +kernel,
    (written_told (.inl rfl) hrun hl (by decide +kernel)
      (by decide +kernel : _ = some 1) (by decide +kernel) (by decide +kernel) 0
      (by decide +kernel)).resolve_right (by decide +kernel)⟩

/-- Nine pieces are broadcast before the writer task of the peer receives. -/
def nineBroadcast : List AnnounceAct :=
  metadataLater 9 ++ (List.range 9).flatMap storeA ++ List.replicate 9 .recvHave

/-- The channel of a magnet keeps eight values: the first of nine pieces is lost, and the peer never
hears of it. -/
theorem written_told_lagged :
    ¬ ∀ (sha1 : Bytes → Digest) (s₀ s : Announce) (as : List AnnounceAct) (l : Link) (next : Nat),
      s₀.Start → Run (step sha1) anyStep s₀ as s → s.peer = some l → l.established →
      l.receiver = some next → s.announcing = none → s.channel.pending next = [] → l.queue = [] →
      ∀ i ∈ l.written, l.sent.any (·.tells i) ∨ l.heard.any (·.tells i) := by
  intro h
  have hrun : Run (step Pipeline.sha1A) anyStep addMagnet nineBroadcast _ := .of_isSome
  have htold := h _ _ _ _ _ 9 (.inl rfl) hrun eq_some_get (by decide +kernel) (by decide +kernel)
    (by decide +kernel) (by decide +kernel) (by decide +kernel) 0 (by decide +kernel)
  exact absurd htold (by decide +kernel)

end Announce

end BitRev
