import BitRev.Peer.Rejects

/-!
# The assignments are the outstanding requests

The torrent lists, for each block, the peers it is requested from, and each connection has its
outstanding requests. The two are changed in different places, and a peer that stays listed for a
block it does not owe us keeps the block from being requested again.

`Download.assignments_tracked`: in every run whose steps all meet `Download.Tracked`, a peer is
listed for a block exactly while the block is outstanding at it, if no cancel waits in the queue of
its connection. `Tracked` names the steps that break this: a reject of an outstanding request, and
the cancel of one for a piece that is not wanted, leave the assignment; an expired request drops the
assignments of the others too; and a block may be requested again while its cancel waits, which then
drops the new request.

Another task unassigns a block when it puts a cancel into a connection's queue, so up to the drain
the connection still has a request that is assigned to nobody. The invariant counts such a request
as dropped (`ConnState.Awaits`).
-/

namespace BitRev

open TorrentDownloadedState List Function

/-- A request that is outstanding, with no cancel waiting for it. -/
def ConnState.Awaits (c : ConnState) (b : BlockRequest) : Prop :=
  b ∈ c.outstandingRequests.keys ∧ b ∉ c.downloadCancels

namespace Handler

variable {h h' h'' : Handler}

structure Tracks (h : Handler) : Prop where
  orderly : h.table.Orderly
  listed : ∀ b, h.peer ∈ h.table.requestersOf b ↔ h.Awaits b

/-- Code of a connection that changes the assignments with the requests. -/
structure Keeps (h h' : Handler) : Prop where
  peer : h'.peer = h.peer
  tracks : h.Tracks → h'.Tracks
  others : h.Tracks → ∀ b q, q ≠ h.peer →
    (q ∈ h'.table.requestersOf b ↔ q ∈ h.table.requestersOf b)

namespace Keeps

lemma trans (h₁ : Keeps h h') (h₂ : Keeps h' h'') : Keeps h h'' where
  peer := h₂.peer.trans h₁.peer
  tracks ht := h₂.tracks (h₁.tracks ht)
  others ht b q hq :=
    (h₂.others (h₁.tracks ht) b q (h₁.peer ▸ hq)).trans (h₁.others ht b q hq)

/-- Code that leaves the assignments alone, and what the connection awaits. -/
lemma of_same (hp : h'.peer = h.peer) (ha : h'.table.blockAssignments = h.table.blockAssignments)
    (hw : ∀ b, h'.Awaits b ↔ h.Awaits b) : Keeps h h' where
  peer := hp
  tracks ht := ⟨ht.orderly.congr ha, fun b => by
    rw [hp, requestersOf_congr ha, hw]
    exact ht.listed b⟩
  others _ b q _ := by rw [requestersOf_congr ha]

lemma sameRequests (hs : SameRequests h h') : Keeps h h' :=
  of_same hs.peer hs.assignments fun b => by
    rw [ConnState.Awaits, ConnState.Awaits, hs.requests, hs.cancels]

/-- Code that gives up everything the connection awaits. -/
lemma of_unassigned (hp : h'.peer = h.peer) (ho : h.table.Orderly → h'.table.Orderly)
    (hm : h.table.Orderly → ∀ b q, q ∈ h'.table.requestersOf b ↔
      q ∈ h.table.requestersOf b ∧ q ≠ h.peer) (hw : ∀ b, ¬ h'.Awaits b) : Keeps h h' where
  peer := hp
  tracks ht := by
    refine ⟨ho ht.orderly, fun b => ?_⟩
    rw [hp, hm ht.orderly]
    exact ⟨fun hb => absurd rfl hb.2, fun hb => absurd hb (hw b)⟩
  others ht b q hq := by
    rw [hm ht.orderly]
    exact ⟨And.left, fun hb => ⟨hb, hq⟩⟩

lemma drain (h : Handler) : Keeps h h.drainDownloadCancels := by
  refine of_same (Upkeep.drainDownloadCancels h).peer (by rw [table_drain]) fun b => ?_
  rw [ConnState.Awaits, mem_drain_keys, (drain_pipeline h).2.2]
  exact ⟨And.left, fun hb => ⟨hb, not_mem_nil⟩⟩

end Keeps

/-! ## Expiry -/

structure Expired (h : Handler) (l : List BlockRequest) (h' : Handler) : Prop where
  orderly : h.table.Orderly → h'.table.Orderly
  requesters : h.table.Orderly → ∀ b q, q ∈ h'.table.requestersOf b ↔
    q ∈ h.table.requestersOf b ∧ (l ≠ [] → q ≠ h.peer)
  keys : ∀ b, b ∈ h'.outstandingRequests.keys ↔ b ∈ h.outstandingRequests.keys ∧ b ∉ l
  lookup : ∀ b, b ∉ l → h'.outstandingRequests.lookup b = h.outstandingRequests.lookup b
  cancels : h'.downloadCancels = h.downloadCancels

lemma expired_foldl : ∀ (l : List BlockRequest) (h : Handler),
    Expired h l (l.foldl expireRequest h)
  | [], h => ⟨id, fun _ _ _ => ⟨fun hq => ⟨hq, fun hne => absurd rfl hne⟩, And.left⟩,
      fun _ => ⟨fun hb => ⟨hb, not_mem_nil⟩, And.left⟩, fun _ _ => rfl, rfl⟩
  | req :: l, h => by
    have ih := expired_foldl l (h.expireRequest req)
    have hpeer := (Upkeep.expireRequest h req).peer
    have hun : ∀ b, (h.expireRequest req).table.requestersOf b =
        (h.table.unassignPeerBlocks h.peer).requestersOf b := requestersOf_congr rfl
    have horder : h.table.Orderly → (h.expireRequest req).table.Orderly := fun ho =>
      (ho.unassignPeerBlocks h.peer).congr rfl
    refine ⟨fun ho => ih.orderly (horder ho), fun ho b q => ?_, fun b => ?_, fun b hb => ?_,
      ih.cancels⟩
    · rw [foldl_cons, ih.requesters (horder ho), hun,
        unassignPeerBlocks_requestersOf ho.assigned, mem_filter, hpeer]
      simp only [decide_eq_true_eq]
      exact ⟨fun hq => ⟨hq.1.1, fun _ => hq.1.2⟩,
        fun hq => ⟨⟨hq.1, hq.2 (cons_ne_nil _ _)⟩, fun _ => hq.2 (cons_ne_nil _ _)⟩⟩
    · have hkeys : b ∈ (h.expireRequest req).outstandingRequests.keys ↔
          b ∈ h.outstandingRequests.keys ∧ b ≠ req := mem_dropRequest h req b
      rw [foldl_cons, ih.keys, hkeys, mem_cons, not_or, and_assoc]
    · rw [mem_cons, not_or] at hb
      rw [foldl_cons, ih.lookup b hb.2]
      exact AList.lookup_erase_ne hb.1

lemma expired (h : Handler) : Expired h h.stale h.expireStaleRequests := by
  have hsame := SameRequests.setPipelineDepth h (max (h.pipelineDepth / 2) 1)
  unfold expireStaleRequests
  split
  · rename_i hnil
    have hid := expired_foldl [] h
    rwa [hnil]
  · have hex := expired_foldl h.stale h.halvePipeline
    have htable : ∀ b, h.halvePipeline.table.requestersOf b = h.table.requestersOf b :=
      requestersOf_congr hsame.assignments
    refine ⟨fun ho => hex.orderly (ho.congr hsame.assignments), fun ho b q => ?_, fun b => ?_,
      fun b hb => ?_, hex.cancels.trans hsame.cancels⟩
    · rw [hex.requesters (ho.congr hsame.assignments), htable]
      exact Iff.of_eq (congrArg (fun p => _ ∧ (_ → q ≠ p)) hsame.peer)
    · rw [hex.keys]
      exact Iff.of_eq (congrArg (fun r : AList _ => b ∈ r.keys ∧ _) hsame.requests)
    · rw [hex.lookup b hb]
      exact congrArg (AList.lookup b) hsame.requests

lemma stale_expire (h : Handler) : h.expireStaleRequests.stale = [] := by
  have hex := expired h
  refine filter_eq_nil_iff.2 fun b hb hold => ?_
  obtain ⟨hkey, hnot⟩ := (hex.keys b).1 hb
  rw [hex.lookup b hnot, (Upkeep.expireStaleRequests h).now] at hold
  exact hnot (mem_filter.2 ⟨hkey, hold⟩)

def ExpiresAll (h : Handler) : Prop :=
  h.stale = [] ∨ ∀ b ∈ h.outstandingRequests.keys, b ∈ h.stale ∨ b ∈ h.downloadCancels

instance (h : Handler) : Decidable h.ExpiresAll := inferInstanceAs (Decidable (_ ∨ _))

lemma keeps_expire (hx : h.ExpiresAll) : Keeps h h.expireStaleRequests := by
  by_cases hs : h.stale = []
  · rw [expire_eq hs]
    exact .sameRequests (.refl h)
  · have hex := expired h
    refine .of_unassigned (Upkeep.expireStaleRequests h).peer hex.orderly (fun ho b q => ?_)
      fun b hb => ?_
    · rw [hex.requesters ho]
      exact ⟨fun hq => ⟨hq.1, hq.2 hs⟩, fun hq => ⟨hq.1, fun _ => hq.2⟩⟩
    · obtain ⟨hkey, hnot⟩ := (hex.keys b).1 hb.1
      rw [ConnState.Awaits, hex.cancels] at hb
      rcases (hx.resolve_left hs) b hkey with hstale | hcancel
      · exact hnot hstale
      · exact hb.2 hcancel

/-! ## Messages -/

lemma keeps_requeue (h : Handler) : Keeps h h.requeueOutstanding := by
  have hassign : h.requeueOutstanding.table.blockAssignments =
      (h.table.unassignPeerBlocks h.peer).blockAssignments := by
    exact foldlRecOn (motive := fun t : TorrentDownloadedState => t.blockAssignments =
      (h.table.unassignPeerBlocks h.peer).blockAssignments) _ _ rfl fun _ heq _ _ => heq
  refine .of_unassigned rfl (fun ho => (ho.unassignPeerBlocks h.peer).congr hassign)
    (fun ho b q => ?_) fun b hb => ?_
  · rw [requestersOf_congr hassign, unassignPeerBlocks_requestersOf ho.assigned, mem_filter]
    simp only [decide_eq_true_eq]
  · exact absurd hb.1 not_mem_nil

/-- A message other than a `Piece`, where a reject is for no outstanding request. -/
lemma keeps_onMessage {m : PeerMessage} (hm : ∀ index start data, m ≠ .piece index start data)
    (hr : ∀ req, m = .rejectRequest req → req ∉ h.outstandingRequests.keys) :
    Keeps h (h.onMessage m) := by
  by_cases hc : m = .choke
  · subst hc
    have hset : SameRequests h { h with chocked := true } := ⟨rfl, rfl, rfl, rfl, fun _ _ _ => rfl⟩
    simp only [onMessage]
    split
    · exact .sameRequests hset
    · exact (Keeps.sameRequests hset).trans (keeps_requeue _)
  · exact .sameRequests (.onMessage ⟨hc, hm⟩ hr)

lemma onPiece_tracks (ht : h.Tracks) (index start : Nat) (data : Bytes) :
    (h.onPiece index start data).Tracks ∧
      ∀ b, (h.onPiece index start data).table.requestersOf b =
        if b = pieceRequest index start data then [] else h.table.requestersOf b := by
  have hassign : (h.onPiece index start data).table.blockAssignments =
      (h.table.noteBlockReceived (pieceRequest index start data) h.peer).1.blockAssignments := by
    rw [onPiece_table, setDownloadedIfAllChunks_assignments, received, setChuncks_assignments]
  have hreqs : ∀ b, (h.onPiece index start data).table.requestersOf b =
      if b = pieceRequest index start data then [] else h.table.requestersOf b := fun b =>
    (requestersOf_congr hassign b).trans (noteBlockReceived_requestersOf _ _ _ _)
  refine ⟨⟨?_, fun b => ?_⟩, hreqs⟩
  · exact (ht.orderly.filter fun x => decide (x ≠ pieceRequest index start data)).congr hassign
  · rw [(Handles.onPiece h index start data).peer, hreqs, ConnState.Awaits,
      (onPiece_requests h index start data).2.2, mem_dropRequest, onPiece_cancels]
    split_ifs with hb
    · exact ⟨fun hm => absurd hm not_mem_nil, fun hw => absurd hb hw.1.2⟩
    · rw [ht.listed b]
      exact ⟨fun hw => ⟨⟨hw.1, hb⟩, hw.2⟩, fun hw => ⟨hw.1.1, hw.2⟩⟩

lemma keeps_onVerified (h : Handler) (v : Verification) (ok banned : Bool) :
    Keeps h (h.onVerified v ok banned) := by
  have hint := SameRequests.refreshInterest
  unfold onVerified
  simp only
  split
  · refine Keeps.trans ?_ (.sameRequests (hint _))
    refine .of_same rfl ?_ fun _ => Iff.rfl
    split <;> rfl
  · split
    · exact .of_same rfl rfl fun _ => Iff.rfl
    · refine Keeps.trans ?_ (.sameRequests (hint _))
      exact .of_same rfl rfl fun _ => Iff.rfl

/-! ## The requester -/

lemma unwanted_drained (hcancel : ∀ b ∈ h.unwanted, b ∈ h.downloadCancels) :
    h.maybeSnub.expireStaleRequests.drainDownloadCancels.unwanted = [] := by
  have hsnub := SameRequests.maybeSnub h
  have hflags := ((Upkeep.maybeSnub h).trans (.expireStaleRequests _)).trans
    (.drainDownloadCancels _)
  have hex := expired h.maybeSnub
  refine filter_eq_nil_iff.2 fun b hb hw => ?_
  obtain ⟨hkey, hnot⟩ := (mem_drain_keys _ b).1 hb
  rw [hex.cancels, hsnub.cancels] at hnot
  have hmem := ((hex.keys b).1 hkey).1
  rw [hsnub.requests] at hmem
  rw [hflags.flags.wanted] at hw
  exact hnot (hcancel b (mem_filter.2 ⟨hmem, hw⟩))

lemma keeps_readied {h₁ : Handler} (hx : h.ExpiresAll)
    (htop : h.requester = .top → ∀ b ∈ h.unwanted, b ∈ h.downloadCancels) (hr : Readied h h₁) :
    Keeps h h₁ := by
  induction hr with
  | same => exact .sameRequests (.refl h)
  | interest _ ih => exact ih.trans (.sameRequests (.refreshInterest _))
  | upkeep ht =>
    have hsnub := SameRequests.maybeSnub h
    have hx' : h.maybeSnub.ExpiresAll := by
      rw [ExpiresAll, stale_maybeSnub, hsnub.requests, hsnub.cancels]
      exact hx
    have hkeep := ((Keeps.sameRequests hsnub).trans (keeps_expire hx')).trans (.drain _)
    unfold upkeep
    rw [cancelUnwantedOutstanding, unwanted_drained (htop ht), foldl_nil]
    exact hkeep.trans (.sameRequests (.refreshInterest _))
  | await => exact (keeps_expire hx).trans (.sameRequests (.maybeSnub _))

lemma keeps_moves (hx : h.ExpiresAll)
    (htop : h.requester = .top → ∀ b ∈ h.unwanted, b ∈ h.downloadCancels) (hm : Moves h h') :
    Keeps h h' := by
  obtain @⟨h₁, t, r, hr, -, ha, -, -⟩ := hm
  exact (keeps_readied hx htop hr).trans (.of_same rfl ha fun _ => Iff.rfl)

lemma keeps_handOver {req : BlockRequest} {table : TorrentDownloadedState} {r : Requester}
    (hreq : req ∉ h.downloadCancels) (ha : h.table.assignBlock req h.peer h.now = (table, true)) :
    Keeps h { handOver { h with table } req with requester := r } where
  peer := rfl
  tracks ht := by
    obtain ⟨ho, -, hreqs⟩ := ht.orderly.assignBlock ha
    refine ⟨ho, fun b => ?_⟩
    have hkeys : b ∈ (h.outstandingRequests.insert req h.now).keys ↔
        b = req ∨ b ∈ h.outstandingRequests.keys := AList.mem_insert _
    simp only [handOver, send, ConnState.Awaits, hreqs, hkeys]
    split_ifs with hb
    · subst hb
      simp [hreq]
    · rw [ht.listed b]
      simp [hb, ConnState.Awaits]
  others ht b q hq := by
    obtain ⟨-, -, hreqs⟩ := ht.orderly.assignBlock ha
    simp only [handOver, send, hreqs]
    split_ifs with hb
    · rw [mem_append, mem_singleton, hb]
      exact ⟨fun hm => hm.resolve_right hq, .inl⟩
    · exact Iff.rfl

/-- Requests are dropped only with their assignments. -/
def TrackedRequest (h : Handler) : Prop :=
  h.ExpiresAll ∧ match h.requester with
    | .top => ∀ b ∈ h.unwanted, b ∈ h.downloadCancels
    | .limited _ req _ => req ∉ h.downloadCancels
    | _ => True

instance (h : Handler) : Decidable h.TrackedRequest := by
  unfold TrackedRequest
  rcases h.requester <;> infer_instance

lemma keeps_request {choice : Nat} (hm : h.TrackedRequest) (hr : h.request choice = some h') :
    Keeps h h' := by
  obtain ⟨hx, hm⟩ := hm
  cases request_cases hr with
  | moves _ hmoves =>
    refine keeps_moves hx (fun ht => ?_) hmoves
    rwa [ht] at hm
  | take => exact .of_same rfl rfl fun _ => Iff.rfl
  | giveBack =>
    refine Keeps.trans (.sameRequests (.refill h)) ?_
    exact .of_same rfl rfl fun _ => Iff.rfl
  | handOver loop req todo table hreq _ ha =>
    rw [hreq] at hm
    exact keeps_handOver hm ha

lemma keeps_timeout (hx : h.ExpiresAll) (hr : h.timeout = some h') : Keeps h h' := by
  cases timeout_cases hr with
  | snubbed since hreq hmoves =>
    exact keeps_moves hx (fun ht => nomatch hreq.symm.trans ht) hmoves
  | slot loop req todo since hreq hmoves =>
    have hsame := SameRequests.setPipelineDepth h (max (h.pipelineDepth / 2) 1)
    have hx' : h.halvePipeline.ExpiresAll := by
      rw [ExpiresAll, halvePipeline, stale_setPipelineDepth, hsame.requests, hsame.cancels]
      exact hx
    have hup := Upkeep.halved h
    have hkeep := (Keeps.sameRequests hsame).trans (keeps_expire hx')
    refine hkeep.trans (keeps_moves (.inl (stale_expire _)) (fun ht => ?_) hmoves)
    cases hreq.symm.trans (hup.requester.symm.trans ht)

end Handler

/-! ## Runs -/

namespace Download

variable {d d' : Download} {a : DownloadAct}

/-- The assignments of the torrent are the outstanding requests of its connections. -/
structure InStep (d : Download) : Prop where
  connected : ∀ p b, p ∈ d.table.requestersOf b → (d.conns p).isSome
  /-- No cancel waits for the connection to take it up. -/
  listed : ∀ p c, d.conns p = some c → c.downloadCancels = [] →
    ∀ b, p ∈ d.table.requestersOf b ↔ b ∈ c.outstandingRequests.keys
  few : ∀ b, (d.table.requestersOf b).length ≤ maxBlockRequesters
  once : ∀ b, (d.table.requestersOf b).Nodup

/-- The steps that drop a request only with its assignment. -/
def Tracked (d : Download) : DownloadAct → Prop
  | .message p (.rejectRequest req) =>
    ∀ h ∈ d.live p, req ∈ h.outstandingRequests.keys → req ∈ h.downloadCancels
  | .request p _ => ∀ h ∈ d.live p, h.TrackedRequest
  | .timeout p => ∀ h ∈ d.live p, h.ExpiresAll
  | _ => True

instance (d : Download) : DecidablePred d.Tracked := by
  intro a
  rcases a with _ | _ | ⟨p, m⟩ | _ | _ | _ | _ | _ | _ | _
  case message => rcases m <;> unfold Tracked <;> infer_instance
  all_goals unfold Tracked; infer_instance

/-- The assignments are the requests the connections await. -/
structure Aligned (d : Download) : Prop where
  orderly : d.table.Orderly
  listed : ∀ p b, p ∈ d.table.requestersOf b ↔ ∃ c, d.conns p = some c ∧ c.Awaits b

lemma Aligned.inStep (hi : d.Aligned) : d.InStep where
  connected p b hb := by
    obtain ⟨c, hc, -⟩ := (hi.listed p b).1 hb
    rw [hc, Option.isSome_some]
  listed p c hc hnil b := by
    rw [hi.listed, hc]
    simp [ConnState.Awaits, hnil]
  few := hi.orderly.few
  once := hi.orderly.once

lemma Aligned.tracks (hi : d.Aligned) {h : Handler} (hl : d.live h.peer = some h) : h.Tracks := by
  obtain ⟨-, hc, -, ht, -⟩ := live_eq hl
  refine ⟨ht ▸ hi.orderly, fun b => ?_⟩
  rw [ht, hi.listed]
  exact ⟨fun ⟨c, hc', hw⟩ => by cases hc.symm.trans hc'; exact hw, fun hw => ⟨_, hc, hw⟩⟩

/-- Code of a connection, and a peer `q` whose own connection is what it was. -/
lemma listed_of_same {h h' : Handler} {q : PeerAddr} (hi : d.Aligned) (hl : d.live h.peer = some h)
    (hk : h.Keeps h') (ht : d'.table = h'.table) (hq : q ≠ h.peer) (hc : d'.conns q = d.conns q)
    (b : BlockRequest) : q ∈ d'.table.requestersOf b ↔ ∃ c, d'.conns q = some c ∧ c.Awaits b := by
  rw [ht, hk.others (hi.tracks hl) b q hq, (live_eq hl).2.2.2.1, hi.listed, hc]

lemma listed_of_own {h h' : Handler} (hh : h'.Tracks) (hp : h'.peer = h.peer)
    (ht : d'.table = h'.table) (hc : d'.conns h.peer = some h'.toConnState) (b : BlockRequest) :
    h.peer ∈ d'.table.requestersOf b ↔ ∃ c, d'.conns h.peer = some c ∧ c.Awaits b := by
  rw [ht, ← hp, hh.listed b, hp, hc]
  exact ⟨fun hw => ⟨_, rfl, hw⟩, fun ⟨c, hc', hw⟩ => by cases hc'; exact hw⟩

section

variable (hi : d.Aligned)
include hi

/-- Code of a connection that keeps its own assignments in step. -/
lemma Aligned.of_keeps {h h' : Handler} (hl : d.live h.peer = some h) (hk : h.Keeps h')
    (ht : d'.table = h'.table) (hself : d'.conns h.peer = some h'.toConnState)
    (hothers : ∀ q, q ≠ h.peer → d'.conns q = d.conns q) : d'.Aligned := by
  have hh := hk.tracks (hi.tracks hl)
  refine ⟨ht ▸ hh.orderly, fun q b => ?_⟩
  by_cases hq : q = h.peer
  · subst hq
    exact listed_of_own hh hk.peer ht hself b
  · exact listed_of_same hi hl hk ht hq (hothers q hq) b

lemma Aligned.piece {h : Handler} {index start : Nat} {data : Bytes} (hl : d.live h.peer = some h)
    (ht : d'.table = (h.onReceivedMessage (.piece index start data)).table)
    (hself : d'.conns h.peer = some (h.onReceivedMessage (.piece index start data)).toConnState)
    (hothers : ∀ q, q ≠ h.peer →
      d.Passive d' (.message h.peer (.piece index start data)) h.peer q) : d'.Aligned := by
  have hdrain : h.Keeps (h.answered (pieceRequest index start data)).drainDownloadCancels := by
    refine Handler.Keeps.trans ?_ (.drain _)
    exact .of_same rfl rfl fun _ => Iff.rfl
  obtain ⟨hh, hreqs⟩ := Handler.onPiece_tracks (hdrain.tracks (hi.tracks hl)) index start data
  have hpeer : (h.onReceivedMessage (.piece index start data)).peer = h.peer :=
    (Handler.Handles.onReceivedMessage h _).peer
  refine ⟨ht ▸ hh.orderly, fun q b => ?_⟩
  by_cases hq : q = h.peer
  · subst hq
    exact listed_of_own hh hpeer ht hself b
  · have hold : q ∈ d'.table.requestersOf b ↔ q ∈ d.table.requestersOf b ∧
        b ≠ pieceRequest index start data := by
      have hsame := hdrain.others (hi.tracks hl) b q hq
      rw [(live_eq hl).2.2.2.1] at hsame
      rw [ht, Handler.onReceivedMessage, Handler.onMessage, Handler.noteAnswer, hreqs, ← hsame]
      split_ifs with hb
      · exact ⟨fun hm => absurd hm not_mem_nil, fun hm => absurd hb hm.2⟩
      · exact ⟨fun hm => ⟨hm, hb⟩, And.left⟩
    rw [hold, hi.listed]
    rcases hothers q hq with ⟨hc, hnot⟩ | ⟨i, st, dat, he, -, hc⟩
    · -- a peer that was not listed for the block does not await it
      rw [hc]
      refine ⟨And.left, fun hw => ⟨hw, fun hb => hnot _ _ _ rfl ?_⟩⟩
      rw [noteBlockReceived_snd, mem_filter, ← hb, hi.listed]
      exact ⟨hw, by simpa using hq⟩
    · cases he
      rw [hc]
      constructor
      · rintro ⟨⟨c, hc', hw⟩, hb⟩
        refine ⟨pushCancels c [pieceRequest index start data], by rw [hc']; rfl, hw.1, fun hm => ?_⟩
        rcases mem_append.1 hm with hm | hm
        · exact hw.2 hm
        · exact hb (mem_singleton.1 hm)
      · rintro ⟨c', hc', hw⟩
        obtain ⟨c, hc, rfl⟩ := Option.map_eq_some_iff.1 hc'
        refine ⟨⟨c, hc, hw.1, fun hm => hw.2 (mem_append_left _ hm)⟩, fun hb => hw.2 ?_⟩
        rw [hb]
        exact mem_append_right _ mem_cons_self

lemma Aligned.disconnect (p : PeerAddr) :
    Aligned { d with
      conns := Function.update d.conns p none, table := d.table.removeReserved p } := by
  have hreq : ∀ b, (d.table.removeReserved p).requestersOf b =
      (d.table.requestersOf b).filter (· ≠ p) := unassignPeerBlocks_requestersOf hi.orderly.assigned p
  refine ⟨?_, fun q b => ?_⟩
  · exact Orderly.unassignPeerBlocks (t := d.table.releasePeerReservations p true)
      (hi.orderly.congr rfl) p
  · simp only [hreq, mem_filter, decide_eq_true_eq, hi.listed]
    by_cases hq : q = p
    · subst hq
      rw [update_self]
      exact ⟨fun hm => absurd rfl hm.2, fun ⟨_, hc, _⟩ => nomatch hc⟩
    · rw [update_of_ne hq]
      exact ⟨And.left, fun hm => ⟨hm, hq⟩⟩

lemma Aligned.connect {p : PeerAddr} (hp : d.conns p = none) (fast : Bool) :
    Aligned { d with
      conns := Function.update d.conns p
        (some { fastExtension := fast, rateWindowStart := d.now }) } := by
  refine ⟨hi.orderly, fun q b => (hi.listed q b).trans ?_⟩
  by_cases hq : q = p
  · subst hq
    constructor
    · rintro ⟨c, hc, -⟩
      cases hp.symm.trans hc
    · rintro ⟨c, hc, hw⟩
      cases (update_self ..).symm.trans hc
      exact absurd hw.1 not_mem_nil
  · simp only [update_of_ne hq]

lemma Aligned.priorities (prios : List FilePriority) :
    Aligned ({ d with table := (d.table.applyFilePriorities prios).1 }.sendPriorityCancels
      (d.table.applyFilePriorities prios).2) := by
  have hun := applyFilePriorities_unwanted d.table prios
  refine ⟨hun.orderly hi.orderly, fun q b => ?_⟩
  have hconn : (∃ c, (d.conns q).map (pushCancels ·
        (priorityCancels (d.table.applyFilePriorities prios).2)) = some c ∧ c.Awaits b) ↔
      (∃ c, d.conns q = some c ∧ c.Awaits b) ∧
        b ∉ (d.table.applyFilePriorities prios).2.map Prod.snd := by
    rw [← mem_priorityCancels]
    constructor
    · rintro ⟨c', hc', hw⟩
      obtain ⟨c, hc, rfl⟩ := Option.map_eq_some_iff.1 hc'
      exact ⟨⟨c, hc, hw.1, fun hm => hw.2 (mem_append_left _ hm)⟩,
        fun hm => hw.2 (mem_append_right _ hm)⟩
    · rintro ⟨⟨c, hc, hw⟩, hno⟩
      refine ⟨pushCancels c _, by rw [hc]; rfl, hw.1, fun hm => ?_⟩
      exact (mem_append.1 hm).elim hw.2 hno
  refine Iff.trans ?_ hconn.symm
  by_cases hb : b ∈ (d.table.applyFilePriorities prios).2.map Prod.snd
  · have hnil : q ∉ (d.table.applyFilePriorities prios).1.requestersOf b := by
      rw [hun.gone b hb]
      exact not_mem_nil
    exact ⟨fun hm => absurd hm hnil, fun hw => absurd hb hw.2⟩
  · rw [← hi.listed, ← hun.kept b hb]
    exact ⟨fun hm => ⟨hm, hb⟩, And.left⟩

lemma Aligned.step (hok : d.Tracked a) (he : d.step a = some d') : d'.Aligned := by
  cases step_cases he with
  | acts h h' hl ha hself hothers ht _ _ =>
    have hplain : (∀ index start data, a ≠ .message h.peer (.piece index start data)) →
        ∀ q, q ≠ h.peer → d'.conns q = d.conns q := by
      intro hno q hq
      rcases hothers q hq with ⟨hc, -⟩ | ⟨_, _, _, he, -⟩
      · exact hc
      · exact absurd he (hno _ _ _)
    cases ha with
    | message m hv =>
      cases m with
      | piece index start data => exact hi.piece hl ht hself hothers
      | rejectRequest req =>
        have hkeep : h.Keeps (h.onReceivedMessage (.rejectRequest req)) := by
          refine Handler.Keeps.trans (@Handler.Keeps.trans _ (h.answered req) _
            (.of_same rfl rfl fun _ => Iff.rfl) (.drain _)) (Handler.keeps_onMessage (by simp) ?_)
          rintro _ ⟨⟩ hm
          obtain ⟨hkey, hno⟩ := (Handler.mem_drain_keys _ _).1 hm
          exact hno (hok h hl hkey)
        exact hi.of_keeps hl hkeep ht hself (hplain (by simp))
      | choke | unchoke | allowedFast | bitfield | reqq =>
        exact hi.of_keeps hl (Handler.Keeps.trans (.drain h)
          (Handler.keeps_onMessage (by simp) (by simp))) ht hself (hplain (by simp))
    | verified v ok hv =>
      exact hi.of_keeps hl (Handler.keeps_onVerified h v ok _) ht hself (hplain (by simp))
    | request hr =>
      exact hi.of_keeps hl (Handler.keeps_request (hok h hl) hr) ht hself (hplain (by simp))
    | timeout hr =>
      exact hi.of_keeps hl (Handler.keeps_timeout (hok h hl) hr) ht hself (hplain (by simp))
  | connect p fast _ hp hd' =>
    rw [hd']
    exact hi.connect hp fast
  | disconnect p _ hd' =>
    rw [hd']
    exact hi.disconnect p
  | tick ms _ hd' | setDownloading b _ hd' | pieces ps _ _ hd' =>
    rw [hd']
    exact ⟨hi.orderly.congr rfl, hi.listed⟩
  | priorities prios _ hd' =>
    rw [hd']
    exact hi.priorities prios

end

/-- A torrent without connections. -/
lemma Aligned.start (hconns : ∀ p, d.conns p = none) (hnone : d.table.blockAssignments = []) :
    d.Aligned := by
  have hreq : ∀ b, d.table.requestersOf b = [] := fun b =>
    requestersOf_of_not_mem fun e he => by simp [hnone] at he
  refine ⟨⟨?_, fun b => ?_, fun b => ?_⟩, fun p b => ?_⟩
  · rw [Assigned, hnone]
    exact nodup_nil
  · rw [hreq]
    exact nodup_nil
  · rw [hreq]
    exact Nat.zero_le _
  · rw [hreq, hconns]
    refine ⟨fun hm => absurd hm not_mem_nil, ?_⟩
    rintro ⟨_, ⟨⟩, _⟩

/-- In a run of tracked steps from a torrent without connections, a peer for which no cancel waits is
listed for a block exactly while the block is outstanding at it. -/
theorem assignments_tracked {as : List DownloadAct} (hconns : ∀ p, d.conns p = none)
    (hnone : d.table.blockAssignments = []) (hrun : Run Download.step Tracked d as d') :
    d'.InStep :=
  (hrun.inv Aligned.step (.start hconns hnone)).inStep

def bothAsked : List DownloadAct :=
  [.connect (localPeer 1) false, .connect (localPeer 2) false,
    .message (localPeer 1) (.bitfield [true, true] false), .message (localPeer 1) .unchoke,
    .message (localPeer 2) (.bitfield [true, true] false), .message (localPeer 2) .unchoke] ++
  replicate 5 (.request (localPeer 1) 0) ++ .request (localPeer 2) 1 ::
  replicate 3 (.request (localPeer 2) 0) ++ .tick 100 :: replicate 4 (.request (localPeer 1) 0)

theorem assignments_tracked_both :
    ∃ d, Run Download.step Tracked twoPieces bothAsked d ∧
      d.table.requestersOf ⟨1, 0, 2⟩ = [localPeer 2, localPeer 1] ∧ d.InStep :=
  have hrun := Run.of_isSome
  ⟨_, hrun, by decide +kernel, assignments_tracked (fun _ => rfl) rfl hrun⟩

def requestRejected : List DownloadAct :=
  asked true 4 ++ [.message (localPeer 1) (.rejectRequest ⟨0, 0, 2⟩)]

/-- Without the condition a peer stays listed for a block it has rejected. -/
theorem assignments_tracked_rejected :
    ¬ ∀ (d d' : Download) (as : List DownloadAct), (∀ p, d.conns p = none) →
      d.table.blockAssignments = [] → Run Download.step anyStep d as d' → d'.InStep := by
  intro h
  have hrun : Run Download.step anyStep twoPieces requestRejected _ := .of_isSome
  have hin := h _ _ _ (fun _ => rfl) rfl hrun
  have hout := (hin.listed (localPeer 1) _ eq_some_get (by decide +kernel) ⟨0, 0, 2⟩).1 (by decide +kernel)
  exact absurd hout (by decide +kernel)

end Download

end BitRev
