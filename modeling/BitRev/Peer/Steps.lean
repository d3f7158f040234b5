import BitRev.Peer.Download

/-!
# What a step of the download does

`Download.StepCase` says once what a step can do: code of one connection runs (`Acts`), or a
connection comes or goes, or something around the connections changes. `Run.conn` is the rule by
which a property of one connection's own state is proved.

`Handler.Upkeep` collects what the functions that keep a connection's requests up to date leave
alone.
-/

namespace BitRev

open TorrentDownloadedState List Option Function

def Requester.Choosing : Requester → Prop
  | .top => True
  | .snubWait _ => True
  | _ => False

instance : DecidablePred Requester.Choosing := by
  intro r
  rcases r <;> unfold Requester.Choosing <;> infer_instance

/-! ## What the upkeep leaves alone -/

namespace Handler

section

variable (h : Handler)

/-- All but the bookkeeping of the pipeline. -/
def untuned : Handler :=
  { h with
    pipelineArmed := false, pipelineDepth := 0, pipelineDebt := 0, requestsSem := 0
    largestDepth := 0, lastBlockAt := none, snubbed := false, rateWindowBytes := 0
    rateWindowStart := 0, lastRate := 0 }

lemma untuned_refill : h.refillPipelineSlot.untuned = h.untuned := by
  unfold refillPipelineSlot
  split <;> rfl

lemma untuned_armPipeline : h.armPipeline.untuned = h.untuned := by
  unfold armPipeline
  split <;> rfl

lemma untuned_setPipelineDepth (n : Nat) : (h.setPipelineDepth n).untuned = h.untuned := by
  unfold setPipelineDepth
  simp only
  split
  · rfl
  · split
    · split <;> rfl
    · rfl

lemma untuned_onDeliveryProgress (bytes : Nat) :
    (h.onDeliveryProgress bytes).untuned = h.untuned := by
  unfold onDeliveryProgress
  simp only
  split
  · split
    · unfold growPipeline
      split
      · exact untuned_setPipelineDepth _ _
      · rfl
    · rfl
  · rfl

end

/-- The functions that keep the requests of a connection up to date change its requests, its
pipeline and what is sent, and of the table only reservations, chunks and assignments. -/
structure Upkeep (h h' : Handler) : Prop where
  peer : h'.peer = h.peer
  now : h'.now = h.now
  isDownloading : h'.isDownloading = h.isDownloading
  fast : h'.fastExtension = h.fastExtension
  chocked : h'.chocked = h.chocked
  bits : h'.bitfield = h.bitfield
  allowed : h'.peerAllowedFast = h.peerAllowedFast
  requester : h'.requester = h.requester
  error : h'.error = h.error
  unanswered : h'.unanswered = h.unanswered
  verifying : h'.verifying = h.verifying
  flags : Released h.table h'.table

namespace Upkeep

variable {h h' h'' : Handler}

lemma refl (h : Handler) : Upkeep h h :=
  ⟨rfl, rfl, rfl, rfl, rfl, rfl, rfl, rfl, rfl, rfl, rfl, .refl _⟩

lemma trans (h₁ : Upkeep h h') (h₂ : Upkeep h' h'') : Upkeep h h'' :=
  ⟨h₂.peer.trans h₁.peer, h₂.now.trans h₁.now, h₂.isDownloading.trans h₁.isDownloading,
    h₂.fast.trans h₁.fast, h₂.chocked.trans h₁.chocked, h₂.bits.trans h₁.bits,
    h₂.allowed.trans h₁.allowed, h₂.requester.trans h₁.requester, h₂.error.trans h₁.error,
    h₂.unanswered.trans h₁.unanswered, h₂.verifying.trans h₁.verifying, h₁.flags.trans h₂.flags⟩

lemma foldl {α : Type} {f : Handler → α → Handler} (hf : ∀ h x, Upkeep h (f h x)) (l : List α)
    (h : Handler) : Upkeep h (l.foldl f h) :=
  foldlRecOn l f (refl h) fun h' hu x _ => hu.trans (hf h' x)

lemma tuned (he : h'.untuned = h.untuned) : Upkeep h h' :=
  have u : Upkeep h.untuned h'.untuned := he ▸ refl _
  { u with }

variable (h : Handler)

lemma refill : Upkeep h h.refillPipelineSlot := tuned (untuned_refill h)

lemma armPipeline : Upkeep h h.armPipeline := tuned (untuned_armPipeline h)

lemma setPipelineDepth (n : Nat) : Upkeep h (h.setPipelineDepth n) :=
  tuned (untuned_setPipelineDepth h n)

lemma onDeliveryProgress (bytes : Nat) : Upkeep h (h.onDeliveryProgress bytes) :=
  tuned (untuned_onDeliveryProgress h bytes)

lemma refreshInterest : Upkeep h h.refreshInterest := by
  unfold Handler.refreshInterest
  simp only
  split
  · exact refl h
  · exact { refl h with }

lemma maybeSnub : Upkeep h h.maybeSnub := by
  unfold Handler.maybeSnub
  simp only
  split
  · exact { refl h with flags := releasePeerReservations_released _ _ _ }
  · exact refl h

section

variable (req : BlockRequest)

lemma expireRequest : Upkeep h (h.expireRequest req) :=
  { refl h with
    flags := (unassignPeerBlocks_released _ _).trans (releaseReservation_released _ _ _) }

lemma expireStaleRequests : Upkeep h h.expireStaleRequests := by
  unfold Handler.expireStaleRequests
  split
  · exact refl h
  · exact (setPipelineDepth h _).trans (foldl expireRequest _ _)

lemma halved : Upkeep h h.halvePipeline.expireStaleRequests :=
  (setPipelineDepth h _).trans (expireStaleRequests _)

lemma cancelRequest : Upkeep h (h.cancelRequest req) := by
  refine Upkeep.trans ?_ (refill _)
  exact { refl h with flags := releaseReservation_released _ _ _ }

lemma cancelUnwantedOutstanding : Upkeep h h.cancelUnwantedOutstanding :=
  foldl cancelRequest _ _

lemma drainCancel : Upkeep h (h.drainCancel req) := by
  unfold Handler.drainCancel
  split
  · refine Upkeep.trans ?_ (refill _)
    exact { refl h with }
  · exact refl h

lemma drainDownloadCancels : Upkeep h h.drainDownloadCancels := by
  refine Upkeep.trans ?_ (foldl drainCancel _ _)
  exact { refl h with }

lemma delivered : Upkeep h (h.delivered req) := by
  refine Upkeep.trans ?_ ((onDeliveryProgress _ _).trans (refill _))
  exact { refl h with flags := ⟨⟨fun _ => rfl, rfl⟩, fun _ hj => hj⟩ }

end

lemma upkeep : Upkeep h h.upkeep :=
  ((((maybeSnub h).trans (expireStaleRequests _)).trans (drainDownloadCancels _)).trans
    (cancelUnwantedOutstanding _)).trans (refreshInterest _)

end Upkeep

/-! ## What leaves the requests alone -/

structure SameRequests (h h' : Handler) : Prop where
  peer : h'.peer = h.peer
  requests : h'.outstandingRequests = h.outstandingRequests
  cancels : h'.downloadCancels = h.downloadCancels
  assignments : h'.table.blockAssignments = h.table.blockAssignments
  sent : ∀ m, m ≠ .interested → m ≠ .notInterested → h'.sent.count m = h.sent.count m

namespace SameRequests

variable {h h' h'' : Handler}

lemma refl (h : Handler) : SameRequests h h := ⟨rfl, rfl, rfl, rfl, fun _ _ _ => rfl⟩

lemma trans (h₁ : SameRequests h h') (h₂ : SameRequests h' h'') : SameRequests h h'' :=
  ⟨h₂.peer.trans h₁.peer, h₂.requests.trans h₁.requests, h₂.cancels.trans h₁.cancels,
    h₂.assignments.trans h₁.assignments, fun m hi hn => (h₂.sent m hi hn).trans (h₁.sent m hi hn)⟩

lemma tuned (he : h'.untuned = h.untuned) : SameRequests h h' :=
  have u : SameRequests h.untuned h'.untuned := he ▸ refl _
  { u with }

section

variable (h : Handler)

lemma refill : SameRequests h h.refillPipelineSlot := tuned (untuned_refill h)

lemma armPipeline : SameRequests h h.armPipeline := tuned (untuned_armPipeline h)

lemma setPipelineDepth (n : Nat) : SameRequests h (h.setPipelineDepth n) :=
  tuned (untuned_setPipelineDepth h n)

lemma onDeliveryProgress (bytes : Nat) :
    SameRequests h (h.onDeliveryProgress bytes) := tuned (untuned_onDeliveryProgress h bytes)

lemma progressed (bytes : Nat) : SameRequests h (h.onDeliveryProgress bytes).refillPipelineSlot :=
  (onDeliveryProgress h bytes).trans (refill _)

lemma refreshInterest : SameRequests h h.refreshInterest := by
  unfold Handler.refreshInterest
  simp only
  split
  · exact refl h
  · refine ⟨rfl, rfl, rfl, rfl, fun m hi hn => ?_⟩
    simp only [send, count_append]
    split
    · rw [count_singleton, if_neg (by simpa using hi.symm), add_zero]
    · rw [count_singleton, if_neg (by simpa using hn.symm), add_zero]

lemma maybeSnub : SameRequests h h.maybeSnub := by
  unfold Handler.maybeSnub
  simp only
  split <;> exact { refl h with }

end

/-- A message other than a choke and a piece, where a reject is for no outstanding request. -/
lemma onMessage {m : PeerMessage}
    (hm : m ≠ .choke ∧ ∀ index start data, m ≠ .piece index start data)
    (hr : ∀ req, m = .rejectRequest req → req ∉ h.outstandingRequests.keys) :
    SameRequests h (h.onMessage m) := by
  cases m with
  | choke => exact absurd rfl hm.1
  | unchoke =>
    have hset : SameRequests h { h with chocked := false } :=
      { refl h with }
    exact hset.trans (armPipeline _)
  | allowedFast index =>
    simp only [Handler.onMessage]
    split
    · exact { refl h with }
    · split <;> exact { refl h with }
  | bitfield bits needsFast =>
    have hset : SameRequests h { h with bitfield := bits } :=
      { refl h with }
    simp only [Handler.onMessage]
    split
    · exact { refl h with }
    · exact hset.trans (refreshInterest _)
  | rejectRequest req =>
    simp only [Handler.onMessage, onRejectRequest]
    split
    · exact { refl h with }
    · rw [if_neg (hr req rfl)]
      exact { refl h with }
  | piece index start data => exact absurd rfl (hm.2 index start data)
  | reqq n =>
    have hset : SameRequests h { h with peerReqq := max 1 (min n maxPipelineDepth) } :=
      { refl h with }
    simp only [Handler.onMessage]
    split
    · exact refl h
    · split
      · exact hset.trans (setPipelineDepth _ _)
      · exact hset

end SameRequests

/-! ## What the message handler does -/

variable {h h₁ h' : Handler}

lemma table_refill (h : Handler) : h.refillPipelineSlot.table = h.table :=
  congrArg (·.table) (untuned_refill h)

lemma table_onDeliveryProgress (h : Handler) (bytes : Nat) :
    (h.onDeliveryProgress bytes).table = h.table :=
  congrArg (·.table) (untuned_onDeliveryProgress h bytes)

lemma table_refreshInterest (h : Handler) : h.refreshInterest.table = h.table := by
  unfold refreshInterest
  simp only
  split <;> rfl

/-- What taking up one cancel keeps, taking up all of them keeps. -/
lemma drain_inv {P : Handler → Prop} (hstep : ∀ h req, P h → P (h.drainCancel req))
    (h0 : P { h with downloadCancels := [] }) : P h.drainDownloadCancels :=
  foldlRecOn _ _ h0 fun h hp req _ => hstep h req hp

section

variable (h : Handler)

lemma table_drain : h.drainDownloadCancels.table = h.table := by
  refine drain_inv (P := fun h' => h'.table = h.table) (fun h' req heq => ?_) rfl
  unfold drainCancel
  split
  · rw [table_refill]
    exact heq
  · exact heq

lemma table_delivered (req : BlockRequest) :
    (h.delivered req).table = (h.table.noteBlockReceived req h.peer).1 := by
  rw [delivered, table_refill, table_onDeliveryProgress]
  rfl

def received (index start : Nat) (data : Bytes) : TorrentDownloadedState :=
  ((h.table.noteBlockReceived (pieceRequest index start data) h.peer).1.setChuncks index start data
    h.peer).1

/-- The block completes its piece. -/
def Completes (index start : Nat) (data : Bytes) : Prop :=
  ((h.received index start data).setDownloadedIfAllChunks index).2.isSome = true

instance (h : Handler) (index start : Nat) (data : Bytes) :
    Decidable (h.Completes index start data) := inferInstanceAs (Decidable (_ = true))

lemma onPiece_table (index start : Nat) (data : Bytes) :
    (h.onPiece index start data).table =
      ((h.received index start data).setDownloadedIfAllChunks index).1 := by
  have hreceived : ((h.delivered (pieceRequest index start data)).table.setChuncks index start data
      (h.delivered (pieceRequest index start data)).peer).1 = h.received index start data := by
    rw [table_delivered, (Upkeep.delivered _ _).peer]
    rfl
  unfold onPiece
  simp only
  rw [hreceived]
  split
  · rename_i heq
    rw [table_refreshInterest, heq]
  · rename_i heq
    rw [heq]

lemma requeueOutstanding_flags : SameFlags h.table h.requeueOutstanding.table := by
  exact foldlRecOn _ _ (unassignPeerBlocks_released h.table h.peer).toSameFlags
    fun t hs index _ => hs.trans (releaseReservation_released t index h.peer).toSameFlags

end

structure Handles (h : Handler) (m : PeerMessage) (h' : Handler) : Prop where
  peer : h'.peer = h.peer
  fast : h'.fastExtension = h.fastExtension
  requester : h'.requester = h.requester
  chocked : h'.chocked → h.chocked ∨ m = .choke
  allowed : ∀ i ∈ h'.peerAllowedFast, i ∈ h.peerAllowedFast ∨ h.fastExtension
  kept : ∀ i ∈ h.peerAllowedFast, i ∈ h'.peerAllowedFast
  flags : ∀ j, h'.table.flagsAt j = h.table.flagsAt j ∨ ∃ start data, m = .piece j start data ∧
    h.Completes j start data ∧
    h'.table.flagsAt j = (h.table.flagsAt j).map fun f => { f with downloaded := true }

namespace Handles

variable {m : PeerMessage}

/-- A message that changes neither the choke nor the allowed-fast set. -/
lemma of_same (hp : h'.peer = h.peer) (hf : h'.fastExtension = h.fastExtension)
    (hr : h'.requester = h.requester) (hc : h'.chocked = h.chocked)
    (ha : h'.peerAllowedFast = h.peerAllowedFast)
    (hflags : ∀ j, h'.table.flagsAt j = h.table.flagsAt j ∨ ∃ start data,
      m = .piece j start data ∧ h.Completes j start data ∧
        h'.table.flagsAt j = (h.table.flagsAt j).map fun f => { f with downloaded := true }) :
    Handles h m h' :=
  ⟨hp, hf, hr, fun h => .inl (hc ▸ h), fun _ hi => .inl (ha ▸ hi), fun _ hi => ha ▸ hi, hflags⟩

lemma of_upkeep (hup : Upkeep h h') : Handles h m h' :=
  of_same hup.peer hup.fast hup.requester hup.chocked hup.allowed fun j => .inl (hup.flags.flags j)

lemma onPiece (h : Handler) (index start : Nat) (data : Bytes) :
    Handles h (.piece index start data) (h.onPiece index start data) := by
  have hup := Upkeep.delivered h (pieceRequest index start data)
  have hflags : ∀ j, (h.onPiece index start data).table.flagsAt j = h.table.flagsAt j ∨
      ∃ start' data', PeerMessage.piece index start data = .piece j start' data' ∧
        h.Completes j start' data' ∧ (h.onPiece index start data).table.flagsAt j =
          (h.table.flagsAt j).map fun f => { f with downloaded := true } := by
    intro j
    have hrec : (h.received index start data).flagsAt j = h.table.flagsAt j := by
      rw [received, setChuncks_flagsAt, noteBlockReceived_flagsAt]
    rw [onPiece_table]
    rcases setDownloadedIfAllChunks_cases (h.received index start data) index with
      ⟨-, hsame⟩ | ⟨pw, hsome, -, -, hset⟩
    · exact .inl ((hsame j).trans hrec)
    · by_cases hj : index = j
      · subst hj
        refine .inr ⟨start, data, rfl, ?_, ?_⟩
        · rw [Completes, hsome]
          rfl
        · rw [hset, hrec]
          simp only [if_true]
      · refine .inl ?_
        rw [hset, hrec]
        simp only [if_neg hj, Option.map_id']
  unfold Handler.onPiece at hflags ⊢
  simp only at hflags ⊢
  split
  · rename_i heq
    have hint := Upkeep.refreshInterest
    rw [heq] at hflags
    exact of_same ((hint _).peer.trans hup.peer) ((hint _).fast.trans hup.fast)
      ((hint _).requester.trans hup.requester) ((hint _).chocked.trans hup.chocked)
      ((hint _).allowed.trans hup.allowed) hflags
  · rename_i heq
    rw [heq] at hflags
    exact of_same hup.peer hup.fast hup.requester hup.chocked hup.allowed hflags

lemma onMessage (h : Handler) (m : PeerMessage) : Handles h m (h.onMessage m) := by
  cases m with
  | choke =>
    simp only [Handler.onMessage]
    split
    · exact ⟨rfl, rfl, rfl, fun _ => .inr rfl, fun _ => .inl, fun _ hi => hi, fun _ => .inl rfl⟩
    · have hfree := requeueOutstanding_flags { h with chocked := true }
      exact ⟨rfl, rfl, rfl, fun _ => .inr rfl, fun _ => .inl, fun _ hi => hi,
        fun j => .inl (hfree.flags j)⟩
  | unchoke =>
    have harm := Upkeep.armPipeline { h with chocked := false }
    refine ⟨harm.peer, harm.fast, harm.requester, fun hc => ?_, fun i hi => .inl ?_, fun i hi => ?_,
      fun j => .inl (harm.flags.flags j)⟩
    · cases harm.chocked.symm.trans hc
    · exact harm.allowed ▸ hi
    · exact harm.allowed.symm ▸ hi
  | allowedFast index =>
    simp only [Handler.onMessage]
    split
    · exact of_same rfl rfl rfl rfl rfl fun _ => .inl rfl
    · rename_i hfast
      split
      · exact of_same rfl rfl rfl rfl rfl fun _ => .inl rfl
      · exact ⟨rfl, rfl, rfl, .inl, fun _ _ => .inr (by simpa using hfast),
          fun _ hi => mem_append_left _ hi, fun _ => .inl rfl⟩
  | bitfield bits needsFast =>
    simp only [Handler.onMessage]
    split
    · exact of_same rfl rfl rfl rfl rfl fun _ => .inl rfl
    · have hint := Upkeep.refreshInterest { h with bitfield := bits }
      exact of_same hint.peer hint.fast hint.requester hint.chocked hint.allowed
        fun j => .inl (hint.flags.flags j)
  | rejectRequest req =>
    simp only [Handler.onMessage, onRejectRequest]
    split
    · exact of_same rfl rfl rfl rfl rfl fun _ => .inl rfl
    · split
      · have hdrop : Upkeep h ((h.dropRequest req).releaseReservation req.index) :=
          { Upkeep.refl h with flags := releaseReservation_released _ _ _ }
        exact of_upkeep (hdrop.trans (.refill _))
      · exact of_same rfl rfl rfl rfl rfl fun _ => .inl rfl
  | piece index start data => exact onPiece h index start data
  | reqq n =>
    simp only [Handler.onMessage]
    split
    · exact of_upkeep (.refl h)
    · have hset : Upkeep h { h with peerReqq := max 1 (min n maxPipelineDepth) } :=
        { Upkeep.refl h with }
      split
      · exact of_upkeep (hset.trans (.setPipelineDepth _ _))
      · exact of_upkeep hset

lemma onReceivedMessage (h : Handler) (m : PeerMessage) : Handles h m (h.onReceivedMessage m) := by
  have hnote : (h.noteAnswer m).peer = h.peer ∧ (h.noteAnswer m).table = h.table ∧
      Upkeep h { h.noteAnswer m with unanswered := h.unanswered } := by
    cases m <;> exact ⟨rfl, rfl, { Upkeep.refl h with }⟩
  obtain ⟨hpeer, htable, hown⟩ := hnote
  have hdrain := Upkeep.drainDownloadCancels (h.noteAnswer m)
  have hh := onMessage (h.noteAnswer m).drainDownloadCancels m
  have hpeer' := hdrain.peer.trans hpeer
  have htable' := (table_drain (h.noteAnswer m)).trans htable
  refine ⟨hh.peer.trans hpeer', (hh.fast.trans hdrain.fast).trans hown.fast,
    (hh.requester.trans hdrain.requester).trans hown.requester, fun hc => ?_, fun i hi => ?_,
    fun i hi => hh.kept i ?_, fun j => ?_⟩
  · rw [← hown.chocked, ← hdrain.chocked]
    exact hh.chocked hc
  · rw [← hown.allowed, ← hown.fast, ← hdrain.allowed, ← hdrain.fast]
    exact hh.allowed i hi
  · rw [hdrain.allowed, hown.allowed]
    exact hi
  · have hflags := hh.flags j
    simp only [Completes, received, hpeer', htable'] at hflags
    exact hflags

end Handles

/-! ## What is sent -/

/-- The requests `l` are cancelled with the peer, and none is sent. -/
structure Cancels (h : Handler) (l : List BlockRequest) (h' : Handler) : Prop where
  request : ∀ b, h'.sent.count (.request b) = h.sent.count (.request b)
  cancel : ∀ b, h'.sent.count (.cancel b) = h.sent.count (.cancel b) + l.count b

namespace Cancels

lemma of_sent (hs : h'.sent = h.sent) : Cancels h [] h' :=
  ⟨fun _ => by rw [hs], fun _ => by rw [hs]; rfl⟩

lemma sameRequests (hs : SameRequests h h') : Cancels h [] h' :=
  ⟨fun b => hs.sent (.request b) nofun nofun, fun b => hs.sent (.cancel b) nofun nofun⟩

lemma trans {l l' : List BlockRequest} (hc : Cancels h l h₁) (hc' : Cancels h₁ l' h') :
    Cancels h (l ++ l') h' :=
  ⟨fun b => (hc'.request b).trans (hc.request b), fun b => by
    rw [hc'.cancel, hc.cancel, count_append, add_assoc]⟩

lemma after {u : Handler} (hsame : SameRequests u h') (hs : u.sent = h.sent) : Cancels h [] h' :=
  (of_sent hs).trans (sameRequests hsame)

lemma one {req : BlockRequest} (hs : h'.sent = h.sent ++ [.cancel req]) : Cancels h [req] h' := by
  refine ⟨fun b => ?_, fun b => ?_⟩
  · rw [hs, count_append, count_singleton, if_neg (by simp), add_zero]
  · rw [hs, count_append, count_singleton, count_singleton]
    simp

lemma foldl {f : Handler → BlockRequest → Handler} (hf : ∀ h req, Cancels h [req] (f h req)) :
    ∀ (l : List BlockRequest) (h : Handler), Cancels h l (l.foldl f h)
  | [], _ => of_sent rfl
  | req :: l, h => (hf h req).trans (foldl hf l (f h req))

variable (h : Handler)

lemma expireStaleRequests : Cancels h h.stale h.expireStaleRequests := by
  unfold Handler.expireStaleRequests
  split
  · rename_i hnil
    rw [hnil]
    exact of_sent rfl
  · exact (sameRequests (.setPipelineDepth h _)).trans (foldl (fun _ _ => one rfl) h.stale _)

lemma drain : Cancels h [] h.drainDownloadCancels := by
  refine of_sent (drain_inv (P := fun h' => h'.sent = h.sent) (fun h' req heq => ?_) rfl)
  unfold drainCancel refillPipelineSlot
  split
  · split <;> exact heq
  · exact heq

lemma cancelUnwantedOutstanding : Cancels h h.unwanted h.cancelUnwantedOutstanding := by
  refine foldl (fun h req => ?_) h.unwanted h
  refine one ?_
  unfold cancelRequest refillPipelineSlot
  split <;> rfl

lemma onMessage (m : PeerMessage) : Cancels h [] (h.onMessage m) := by
  cases m with
  | choke =>
    simp only [Handler.onMessage]
    split <;> exact of_sent rfl
  | rejectRequest req =>
    simp only [Handler.onMessage, onRejectRequest]
    split
    · exact of_sent rfl
    · split
      · exact after (.refill _) rfl
      · exact of_sent rfl
  | piece index start data =>
    have hdel : Cancels h [] (h.delivered (pieceRequest index start data)) := by
      rw [delivered]
      exact after (.progressed _ _) rfl
    simp only [Handler.onMessage, onPiece]
    split
    · exact hdel.trans (after (.refreshInterest _) rfl)
    · exact ⟨hdel.request, hdel.cancel⟩
  | _ => exact sameRequests (.onMessage ⟨nofun, nofun⟩ nofun)

lemma onReceivedMessage (m : PeerMessage) : Cancels h [] (h.onReceivedMessage m) := by
  have hnote : Cancels h [] (h.noteAnswer m) := by cases m <;> exact of_sent rfl
  exact (hnote.trans (drain _)).trans (onMessage _ m)

lemma onVerified (v : Verification) (ok banned : Bool) :
    Cancels h [] (h.onVerified v ok banned) := by
  unfold Handler.onVerified
  simp only
  split
  · exact after (.refreshInterest _) rfl
  · split
    · exact of_sent rfl
    · exact after (.refreshInterest _) rfl

end Cancels

/-! ## What the requester does -/

/-- The upkeep the requester has done before it chooses blocks or waits for a slot. -/
inductive Readied (h : Handler) : Handler → Prop
  | same : Readied h h
  | interest {h₁ : Handler} : Readied h h₁ → Readied h h₁.refreshInterest
  | upkeep : h.requester = .top → Readied h h.upkeep
  | await : Readied h h.expireStaleRequests.maybeSnub

lemma Readied.toUpkeep (hr : Readied h h₁) : Upkeep h h₁ := by
  induction hr with
  | same => exact .refl h
  | interest _ ih => exact ih.trans (.refreshInterest _)
  | upkeep => exact .upkeep h
  | await => exact (Upkeep.expireStaleRequests h).trans (.maybeSnub _)

inductive Chosen (h : Handler) (req : BlockRequest) : Prop
  | picked (i : Nat) (f : PieceFlags) : h.table.flagsAt i = some f → f.downloaded = false →
    req ∈ blocksOf f.work.index f.work.length → (h.chocked → i ∈ h.peerAllowedFast) →
    Chosen h req
  | endgame (i : Nat) (f : PieceFlags) : h.table.flagsAt i = some f → f.downloaded = false →
    req ∈ blocksOf f.work.index f.work.length → h.table.inEndgame →
    h.table.wanted f.work.index → h.hasBit f.work.index → Chosen h req

/-- The requester goes on without a slot: of the table it changes reservations, and the blocks it
is about to request are those it was about to request before, or are chosen. -/
inductive Moves (h : Handler) : Handler → Prop
  | mk {h₁ : Handler} (t : TorrentDownloadedState) (r : Requester) : Readied h h₁ →
    SameFlags h₁.table t → t.blockAssignments = h₁.table.blockAssignments → r.held = 0 →
    (∀ req ∈ r.pending,
      req ∈ h.requester.pending ∨ (h.requester.Choosing ∧ h₁.Chosen req)) →
    Moves h { h₁ with table := t, requester := r }

namespace Moves

section

variable (hr : Readied h h₁)
include hr

lemma stay (hheld : h.requester.held = 0) : Moves h h₁ := by
  have hsame := hr.toUpkeep.requester
  exact mk h₁.table h₁.requester hr (.refl _) rfl (by rw [hsame, hheld])
    fun req hreq => .inl (hsame ▸ hreq)

/-- The requester goes on to blocks that are among those it was about to request. -/
lemma next {r : Requester} (hheld : r.held = 0)
    (hp : ∀ req ∈ r.pending, req ∈ h.requester.pending) : Moves h { h₁ with requester := r } :=
  mk h₁.table r hr (.refl _) rfl hheld fun req hreq => .inl (hp req hreq)

lemma picked (hcan : h.requester.Choosing) {peerHas : Nat → Bool} {choice index : Nat}
    {table : TorrentDownloadedState}
    (hpick : h₁.table.pick h₁.peer peerHas choice = some (index, table))
    (hallow : h₁.chocked → peerHas index → index ∈ h₁.peerAllowedFast) :
    Moves h (requestPieceBlocks { h₁ with table } index) := by
  obtain ⟨hhas, hmiss, -, hflags, hassign⟩ := pick_spec hpick
  have hsame := hr.toUpkeep.requester
  have hheld : h.requester.held = 0 := by
    cases hreq : h.requester <;> rw [hreq] at hcan <;> first | rfl | exact hcan.elim
  unfold requestPieceBlocks
  split
  · exact mk table h₁.requester hr hflags hassign (by rw [hsame, hheld])
      fun req hreq => .inl (hsame ▸ hreq)
  · rename_i pw hpw
    have hf : h₁.table.flagsAt index = some pw.flags := by
      rw [← hflags.flags, flagsAt, hpw]
      rfl
    have hdown : pw.flags.downloaded = false := by
      rw [hasPiece_eq, hf] at hmiss
      exact hmiss
    exact @mk h h₁ table _ hr hflags hassign rfl fun req hreq =>
      .inr ⟨hcan, .picked index pw.flags hf hdown hreq fun hc => hallow hc hhas⟩

lemma endgame (hcan : h.requester.Choosing) : Moves h h₁.requestEndgameBlocks := by
  unfold requestEndgameBlocks
  simp only
  split
  · exact next hr rfl nofun
  · refine mk h₁.table _ hr (.refl _) rfl rfl fun req hreq => .inr ⟨hcan, ?_⟩
    have hmem : req ∈ h₁.table.endgameBlocks h₁.peer h₁.hasBit
      (h₁.pipelineDepth - h₁.outstandingRequests.keys.length) h₁.now := hreq
    unfold endgameBlocks at hmem
    split at hmem
    · cases hmem
    · rename_i hend
      obtain ⟨pw, hpw, hblock⟩ := mem_flatMap.1 (mem_of_mem_take hmem)
      obtain ⟨hmem, hcond⟩ := mem_filter.1 hpw
      obtain ⟨i, hi⟩ := mem_iff_getElem?.1 hmem
      simp only [missing, Bool.and_eq_true, Bool.not_eq_true'] at hcond
      refine .endgame i pw.flags ?_ hcond.1.1 (mem_of_mem_filter hblock) ?_ hcond.1.2 hcond.2.2
      · rw [flagsAt, hi]
        rfl
      · simpa using hend

lemma chooseRequests (htop : h.requester = .top) (choice : Nat) :
    Moves h (h₁.chooseRequests choice) := by
  have hheld : h.requester.held = 0 := by
    rw [htop]
    rfl
  have hcan : h.requester.Choosing := by
    rw [htop]
    trivial
  unfold Handler.chooseRequests
  simp only
  split
  · exact stay hr hheld
  · split
    · split
      · rename_i index table hpick
        split_ifs at hpick
        refine picked hr hcan hpick fun _ hhas => ?_
        exact mem_of_mem_filter (contains_iff_mem.1 hhas)
      · split
        · exact endgame hr hcan
        · exact stay hr hheld
    · rename_i hunchoked
      split
      · exact endgame hr hcan
      · split
        · exact next hr rfl nofun
        · split
          · rename_i index table hpick
            exact picked hr hcan hpick fun hc => absurd hc hunchoked
          · exact stay hr hheld

end

lemma top (htop : h.requester = .top) (choice : Nat) : Moves h (h.top choice) := by
  have hheld : h.requester.held = 0 := by
    rw [htop]
    rfl
  unfold Handler.top
  split
  · exact stay (.interest .same) hheld
  · simp only
    split
    · exact stay (.interest (.upkeep htop)) hheld
    · exact chooseRequests (.upkeep htop) htop choice

lemma awaitSlot {loop : RequestLoop} {req : BlockRequest} {todo : List BlockRequest}
    (hp : ∀ r ∈ req :: todo, r ∈ h.requester.pending) : Moves h (h.awaitSlot loop req todo) :=
  next .await rfl hp

lemma nextBlock {loop : RequestLoop} {todo : List BlockRequest}
    (hreq : h.requester = .blocks loop todo) : Moves h (h.nextBlock loop todo) := by
  have hsend : ∀ (req : BlockRequest) (rest : List BlockRequest), todo = req :: rest →
      Moves h (h.sendBlockRequest loop req rest) := by
    rintro req rest rfl
    have hp : ∀ r ∈ req :: rest, r ∈ h.requester.pending := by
      rw [hreq]
      exact fun _ hr => hr
    unfold sendBlockRequest
    split
    · exact next .same rfl nofun
    · split
      · exact @mk h h _ _ .same (releaseReservation_released _ _ _).toSameFlags rfl rfl fun r hr =>
          .inl (hp r (mem_cons_of_mem _ hr))
      · exact awaitSlot hp
  cases todo with
  | nil => exact next .same rfl nofun
  | cons req rest =>
    cases loop with
    | piece index =>
      simp only [Handler.nextBlock]
      split
      · exact @mk h h _ _ .same (releaseReservation_released _ _ _).toSameFlags rfl rfl nofun
      · exact hsend req rest rfl
    | endgame => exact hsend req rest rfl

end Moves

inductive RequestCase (h : Handler) : Handler → Prop
  | moves {h' : Handler} : h.requester.held = 0 → Moves h h' → RequestCase h h'
  | take (loop : RequestLoop) (req : BlockRequest) (todo : List BlockRequest) (since : Nat) :
    h.requester = .slot loop req todo since → h.requestsSem ≠ 0 →
    RequestCase h
      { h with requestsSem := h.requestsSem - 1, requester := .limited loop req todo }
  | giveBack (loop : RequestLoop) (req : BlockRequest) (todo : List BlockRequest) (r : Requester) :
    h.requester = .limited loop req todo → r = .blocks loop todo ∨ r = .top →
    RequestCase h { h.refillPipelineSlot with requester := r }
  | handOver (loop : RequestLoop) (req : BlockRequest) (todo : List BlockRequest)
    (table : TorrentDownloadedState) : h.requester = .limited loop req todo →
    h.table.wanted req.index → h.table.assignBlock req h.peer h.now = (table, true) →
    RequestCase h { { h with table }.handOver req with requester := .blocks loop todo }

lemma request_cases {choice : Nat} (hr : h.request choice = some h') : RequestCase h h' := by
  unfold request at hr
  split at hr
  · rename_i hreq
    cases hr
    exact .moves (by rw [hreq]; rfl) (.top hreq choice)
  · rename_i hreq
    cases hr
    exact .moves (by rw [hreq]; rfl) (.next .same rfl nofun)
  · rename_i hreq
    cases hr
    exact .moves (by rw [hreq]; rfl) (.nextBlock hreq)
  · rename_i loop req todo since hreq
    split at hr
    · cases hr
    · rename_i hsem
      cases hr
      exact .take loop req todo since hreq hsem
  · rename_i loop req todo hreq
    cases hr
    unfold useSlot
    split
    · refine .giveBack loop req todo _ hreq ?_
      split
      · exact .inl rfl
      · exact .inr rfl
    · rename_i hwant
      simp only [Bool.or_eq_true, Bool.not_eq_true', not_or, Bool.not_eq_false] at hwant
      split
      · exact .giveBack loop req todo _ hreq (.inl rfl)
      · rename_i table hassign
        exact .handOver loop req todo table hreq hwant.2 hassign

inductive TimeoutCase (h : Handler) : Handler → Prop
  | snubbed {h' : Handler} (since : Nat) : h.requester = .snubWait since → Moves h h' →
    TimeoutCase h h'
  | slot {h' : Handler} (loop : RequestLoop) (req : BlockRequest) (todo : List BlockRequest)
    (since : Nat) : h.requester = .slot loop req todo since →
    Moves h.halvePipeline.expireStaleRequests h' → TimeoutCase h h'

lemma timeout_cases (hr : h.timeout = some h') : TimeoutCase h h' := by
  unfold timeout at hr
  split at hr
  · rename_i since hreq
    split at hr
    · cases hr
    · cases hr
      refine .snubbed since hreq ?_
      split
      · exact .endgame .same (by rw [hreq]; trivial)
      · exact .next .same rfl nofun
  · rename_i loop req todo since hreq
    split_ifs at hr
    cases hr
    have hsame : h.halvePipeline.expireStaleRequests.requester = h.requester :=
      ((Upkeep.setPipelineDepth h _).trans (.expireStaleRequests _)).requester
    refine .slot loop req todo since hreq ?_
    split
    · refine .awaitSlot ?_
      rw [hsame, hreq]
      exact fun _ hm => hm
    · exact .next .same rfl nofun
  · cases hr

/-- What the requester leaves alone. -/
structure Leaves (h h' : Handler) : Prop where
  peer : h'.peer = h.peer
  fast : h'.fastExtension = h.fastExtension
  chocked : h'.chocked = h.chocked
  allowed : h'.peerAllowedFast = h.peerAllowedFast
  flags : SameFlags h.table h'.table

lemma Upkeep.leaves (hup : Upkeep h h') : Leaves h h' :=
  ⟨hup.peer, hup.fast, hup.chocked, hup.allowed, hup.flags.toSameFlags⟩

lemma Moves.leaves (hm : Moves h h') : Leaves h h' := by
  obtain @⟨h₁, t, r, hr, hflags, -, -, -⟩ := hm
  have hl := hr.toUpkeep.leaves
  exact ⟨hl.peer, hl.fast, hl.chocked, hl.allowed, hl.flags.trans hflags⟩

lemma request_leaves {choice : Nat} (hr : h.request choice = some h') : Leaves h h' := by
  cases request_cases hr with
  | moves _ hm => exact hm.leaves
  | take => exact ⟨rfl, rfl, rfl, rfl, .refl _⟩
  | giveBack =>
    have hl := (Upkeep.refill h).leaves
    exact { hl with }
  | handOver loop req todo table _ _ hassign =>
    have hflags := assignBlock_sameFlags h.table req h.peer h.now
    rw [hassign] at hflags
    exact ⟨rfl, rfl, rfl, rfl, hflags⟩

lemma timeout_leaves (hr : h.timeout = some h') : Leaves h h' := by
  cases timeout_cases hr with
  | snubbed _ _ hm => exact hm.leaves
  | slot loop req todo since _ hm =>
    have hup := Upkeep.halved h
    have hl := hup.leaves
    have hl' := hm.leaves
    exact ⟨hl'.peer.trans hl.peer, hl'.fast.trans hl.fast, hl'.chocked.trans hl.chocked,
      hl'.allowed.trans hl.allowed, hl.flags.trans hl'.flags⟩

lemma onVerified_same (h : Handler) (v : Verification) (ok banned : Bool) :
    (h.onVerified v ok banned).peer = h.peer ∧
      (h.onVerified v ok banned).fastExtension = h.fastExtension ∧
      (h.onVerified v ok banned).chocked = h.chocked ∧
      (h.onVerified v ok banned).peerAllowedFast = h.peerAllowedFast ∧
      (h.onVerified v ok banned).requester = h.requester := by
  have hint := Upkeep.refreshInterest
  unfold onVerified
  simp only
  split
  · exact ⟨(hint _).peer, (hint _).fast, (hint _).chocked, (hint _).allowed, (hint _).requester⟩
  · split
    · exact ⟨rfl, rfl, rfl, rfl, rfl⟩
    · exact ⟨(hint _).peer, (hint _).fast, (hint _).chocked, (hint _).allowed, (hint _).requester⟩

end Handler

namespace Download

variable {d d' : Download} {a : DownloadAct}

/-- The step `a` runs code of the connection `h`, which becomes `h'`. -/
inductive Acts (d : Download) (h : Handler) : DownloadAct → Handler → Prop
  | message (m : PeerMessage) : h.verifying = none →
    Acts d h (.message h.peer m) (h.onReceivedMessage m)
  | verified (v : Verification) (ok : Bool) : h.verifying = some v →
    Acts d h (.verified h.peer ok) (h.onVerified v ok (d.bans v.index h.peer))
  | request {choice : Nat} {h' : Handler} : h.request choice = some h' →
    Acts d h (.request h.peer choice) h'
  | timeout {h' : Handler} : h.timeout = some h' → Acts d h (.timeout h.peer) h'

lemma Acts.fast {h h' : Handler} (ha : d.Acts h a h') : h'.fastExtension = h.fastExtension := by
  cases ha with
  | message m _ => exact (Handler.Handles.onReceivedMessage h m).fast
  | verified v ok _ => exact (h.onVerified_same v ok _).2.1
  | request hr => exact (Handler.request_leaves hr).fast
  | timeout hr => exact (Handler.timeout_leaves hr).fast

/-- The step leaves the connection of `q` alone, unless `q` has been asked for a block that another
peer has delivered: then it pushes the cancel for it. -/
def Passive (d d' : Download) (a : DownloadAct) (p q : PeerAddr) : Prop :=
  (d'.conns q = d.conns q ∧ ∀ index start data, a = .message p (.piece index start data) →
    q ∉ (d.table.noteBlockReceived (pieceRequest index start data) p).2) ∨
  ∃ index start data, a = .message p (.piece index start data) ∧
    q ∈ (d.table.noteBlockReceived (pieceRequest index start data) p).2 ∧
    d'.conns q = (d.conns q).map (pushCancels · [pieceRequest index start data])

inductive StepCase (d : Download) (a : DownloadAct) (d' : Download) : Prop
  | acts (h h' : Handler) : d.live h.peer = some h → d.Acts h a h' →
    d'.conns h.peer = some h'.toConnState → (∀ q, q ≠ h.peer → d.Passive d' a h.peer q) →
    d'.table = h'.table → d'.now = d.now → d'.isDownloading = d.isDownloading → StepCase d a d'
  | connect (p : PeerAddr) (fast : Bool) : a = .connect p fast → d.conns p = none →
    d' = { d with
      conns := Function.update d.conns p (some { fastExtension := fast, rateWindowStart := d.now }) } →
    StepCase d a d'
  | disconnect (p : PeerAddr) : a = .disconnect p →
    d' = { d with conns := Function.update d.conns p none, table := d.table.removeReserved p } →
    StepCase d a d'
  | tick (ms : Nat) : a = .tick ms → d' = { d with now := d.now + ms } → StepCase d a d'
  | setDownloading (b : Bool) : a = .setDownloading b → d' = { d with isDownloading := b } →
    StepCase d a d'
  | priorities (prios : List FilePriority) : a = .priorities prios →
    d' = { d with table := (d.table.applyFilePriorities prios).1 }.sendPriorityCancels
      (d.table.applyFilePriorities prios).2 → StepCase d a d'
  | pieces (ps : List PieceWorkState) : a = .pieces ps →
    ps.map (·.pieceWork) = d.table.pieces.map (·.pieceWork) →
    d' = { d with
      table := { d.table with pieces := ps, verified := ps.countP (·.downloaded) } } →
    StepCase d a d'

lemma live_eq {p : PeerAddr} {h : Handler} (hl : d.live p = some h) :
    h.peer = p ∧ d.conns p = some h.toConnState ∧ h.error = none ∧ h.table = d.table ∧ h.now = d.now ∧
      h.isDownloading = d.isDownloading := by
  unfold live at hl
  obtain ⟨c, hc, hl⟩ := bind_eq_some_iff.1 hl
  split_ifs at hl with he
  cases hl
  have hnone : c.error = none := by simpa using he
  exact ⟨rfl, hc, hnone, rfl, rfl, rfl⟩

/-- Code of a connection that touches nothing but its own state and the table. -/
lemma StepCase.put {h h' : Handler} (hl : d.live h.peer = some h) (ha : d.Acts h a h')
    (hno : ∀ p index start data, a ≠ .message p (.piece index start data)) :
    StepCase d a (d.put h.peer h') :=
  .acts h h' hl ha (update_self ..)
    (fun _ hq => .inl ⟨update_of_ne hq .., fun _ _ _ he => absurd he (hno _ _ _ _)⟩)
    rfl rfl rfl

lemma StepCase.message {h : Handler} (hl : d.live h.peer = some h) (m : PeerMessage)
    (hv : h.verifying = none) : StepCase d (.message h.peer m) (d.onMessage h m) := by
  have hact : d.Acts h _ _ := .message m hv
  cases m with
  | piece index start data =>
    have hself : h.peer ∉ (d.table.noteBlockReceived (pieceRequest index start data) h.peer).2 := by
      intro hm
      rw [noteBlockReceived] at hm
      cases hf : d.table.blockAssignments.find? (·.1 = pieceRequest index start data) with
      | none | some x => simp [hf] at hm
    refine .acts h _ hl hact ?_ (fun q hq => ?_) rfl rfl rfl
    · simp only [onMessage, cancelOthers, if_neg hself]
      exact update_self ..
    · have hother : (d.put h.peer (h.onReceivedMessage (.piece index start data))).conns q =
          d.conns q := update_of_ne hq ..
      by_cases hm : q ∈ (d.table.noteBlockReceived (pieceRequest index start data) h.peer).2
      · refine .inr ⟨index, start, data, rfl, hm, ?_⟩
        simp only [onMessage, cancelOthers, if_pos hm, hother]
      · refine .inl ⟨?_, fun _ _ _ he => ?_⟩
        · simp only [onMessage, cancelOthers, if_neg hm, hother]
        · cases he
          exact hm
  | choke | unchoke | allowedFast index | bitfield bits needsFast | rejectRequest req | reqq n =>
    exact .put hl hact (by simp)

lemma StepCase.verified {h : Handler} (hl : d.live h.peer = some h) {v : Verification} (ok : Bool)
    (hv : h.verifying = some v) : StepCase d (.verified h.peer ok) (d.onVerified h v ok) := by
  have hact : d.Acts h _ _ := .verified v ok hv
  unfold onVerified
  simp only
  split
  · exact .put hl hact (by simp)
  · exact .acts h _ hl hact (update_self ..)
      (fun _ hq => .inl ⟨update_of_ne hq .., nofun⟩) rfl rfl rfl

lemma step_cases (h : d.step a = some d') : StepCase d a d' := by
  cases a with
  | connect p fast =>
    simp only [step] at h
    split_ifs at h with hnone
    cases h
    exact .connect p fast rfl (by simpa using hnone) rfl
  | disconnect p =>
    simp only [step] at h
    split_ifs at h
    cases h
    exact .disconnect p rfl rfl
  | message p m =>
    obtain ⟨hd, hl, hr⟩ := bind_eq_some_iff.1 h
    obtain ⟨rfl, -⟩ := live_eq hl
    split_ifs at hr with hv
    cases hr
    exact .message hl m (by simpa using hv)
  | verified p ok =>
    obtain ⟨hd, hl, hr⟩ := bind_eq_some_iff.1 h
    obtain ⟨rfl, -⟩ := live_eq hl
    obtain ⟨v, hv, rfl⟩ := map_eq_some_iff.1 hr
    exact .verified hl ok hv
  | request p choice =>
    obtain ⟨hd, hl, hr⟩ := bind_eq_some_iff.1 h
    obtain ⟨rfl, -⟩ := live_eq hl
    obtain ⟨h', hh, rfl⟩ := map_eq_some_iff.1 hr
    exact .put hl (.request hh) (by simp)
  | timeout p =>
    obtain ⟨hd, hl, hr⟩ := bind_eq_some_iff.1 h
    obtain ⟨rfl, -⟩ := live_eq hl
    obtain ⟨h', hh, rfl⟩ := map_eq_some_iff.1 hr
    exact .put hl (.timeout hh) (by simp)
  | tick ms =>
    cases h
    exact .tick ms rfl rfl
  | setDownloading b =>
    cases h
    exact .setDownloading b rfl rfl
  | priorities prios =>
    cases h
    exact .priorities prios rfl rfl
  | pieces ps =>
    simp only [step] at h
    split_ifs at h with heq
    cases h
    exact .pieces ps rfl (not_not.1 heq) rfl

/-! ## Properties of one connection -/

/-- The connection of `p` that a step leads to is new, or as it was but for cancels pushed by other
code, or its own code has run. -/
inductive ConnCase (d : Download) (a : DownloadAct) (d' : Download) (p : PeerAddr) (c' : ConnState) :
    Prop
  | made (fast : Bool) : a = .connect p fast → d.conns p = none →
    c' = { fastExtension := fast, rateWindowStart := d.now } → ConnCase d a d' p c'
  | kept : d.conns p = some c' → ConnCase d a d' p c'
  | pushed (c : ConnState) (reqs : List BlockRequest) : d.conns p = some c →
    c' = pushCancels c reqs → ((∃ q index start data, a = .message q (.piece index start data) ∧
      p ∈ (d.table.noteBlockReceived (pieceRequest index start data) q).2 ∧
      reqs = [pieceRequest index start data]) ∨ ∃ prios, a = .priorities prios ∧
      reqs = priorityCancels (d.table.applyFilePriorities prios).2) → ConnCase d a d' p c'
  | acts (h h' : Handler) : d.live h.peer = some h → p = h.peer → d.Acts h a h' →
    c' = h'.toConnState → d'.table = h'.table → ConnCase d a d' p c'

lemma conn_cases {p : PeerAddr} {c' : ConnState} (he : d.step a = some d')
    (hc : d'.conns p = some c') : ConnCase d a d' p c' := by
  cases step_cases he with
  | acts h h' hl ha hself hothers ht _ _ =>
    by_cases hp : p = h.peer
    · subst hp
      exact .acts h h' hl rfl ha (some.inj (hc.symm.trans hself)) ht
    · rcases hothers p hp with ⟨hsame, -⟩ | ⟨index, start, data, heq, hlisted, hpushed⟩
      · exact .kept (hsame.symm.trans hc)
      · obtain ⟨c, hc₀, rfl⟩ := map_eq_some_iff.1 (hpushed.symm.trans hc)
        exact .pushed c _ hc₀ rfl (.inl ⟨_, index, start, data, heq, hlisted, rfl⟩)
  | connect q fast ha hq hd' =>
    subst hd'
    by_cases hp : p = q
    · subst hp
      exact .made fast ha hq (some.inj (hc.symm.trans (update_self ..)))
    · exact .kept ((update_of_ne hp ..).symm.trans hc)
  | disconnect q _ hd' =>
    subst hd'
    by_cases hp : p = q
    · subst hp
      cases (update_self ..).symm.trans hc
    · exact .kept ((update_of_ne hp ..).symm.trans hc)
  | tick _ _ hd' | setDownloading _ _ hd' | pieces _ _ _ hd' =>
    subst hd'
    exact .kept hc
  | priorities prios ha hd' =>
    subst hd'
    obtain ⟨c, hc₀, rfl⟩ := map_eq_some_iff.1 hc
    exact .pushed c _ hc₀ rfl (.inr ⟨prios, ha, rfl⟩)

/-- What holds of a new connection, is kept when cancels are pushed, and is kept by the code of
the connection in the guarded steps, holds of the connection in every state reached. -/
lemma conn_inv {P : ConnState → Prop} {ok : Download → DownloadAct → Prop} {p : PeerAddr}
    (hnew : ∀ fast now, P { fastExtension := fast, rateWindowStart := now })
    (hpush : ∀ c reqs, P c → P (pushCancels c reqs))
    (hact : ∀ {d a h h'}, ok d a → d.live p = some h → h.peer = p → d.Acts h a h' →
      P h.toConnState → P h'.toConnState) {as : List DownloadAct} (hrun : Run step ok d as d')
    (hd : ∀ c, d.conns p = some c → P c) : ∀ c, d'.conns p = some c → P c := by
  refine hrun.inv (I := fun d => ∀ c, d.conns p = some c → P c) (fun {d a d'} hi hok he c hc => ?_)
    hd
  cases conn_cases he hc with
  | made fast _ _ h => exact h ▸ hnew fast d.now
  | kept h => exact hi c h
  | pushed c₀ reqs h₀ h => exact h ▸ hpush c₀ reqs (hi c₀ h₀)
  | acts h h' hl hp ha heq =>
    subst hp heq
    exact hact hok hl rfl ha (hi _ (live_eq hl).2.1)

end Download

end BitRev
