import BitRev.Peer.Window

/-!
# Rejects of requests that were sent

With the fast extension a peer answers every request once, by the block or by a `RejectRequest`. A
reject of a request that is not outstanding closes the connection, so a request must not be dropped
before it is answered. But requests are dropped when they expire, when another peer has delivered
the block, and when the piece is not wanted any more.

In the runs of `Download.answers_accepted` no request is dropped unanswered and the peer is not
banned for a hash (`Download.Remembers`). The invariant is that the requests not answered are the
outstanding ones, each once.
-/

namespace BitRev

open TorrentDownloadedState List

structure ConnState.Known (c : ConnState) : Prop where
  once : ∀ req, c.unanswered.count req = if req ∈ c.outstandingRequests.keys then 1 else 0
  error : c.error = none

lemma ConnState.Known.mem_keys {c : ConnState} (hk : c.Known) {req : BlockRequest}
    (hreq : req ∈ c.unanswered) : req ∈ c.outstandingRequests.keys := by
  have hpos := count_pos_iff.2 hreq
  rw [hk.once req] at hpos
  by_contra hno
  rw [if_neg hno] at hpos
  exact lt_irrefl _ hpos

namespace Handler

variable {h h' : Handler} {req : BlockRequest}

/-- Whatever leaves the requests and the answers alone. -/
lemma known_of_same (hk : h.Known) (hup : Upkeep h h')
    (hkeys : ∀ req, req ∈ h'.outstandingRequests.keys ↔ req ∈ h.outstandingRequests.keys) :
    h'.Known where
  once req := by
    rw [hup.unanswered, hk.once req]
    simp only [hkeys]
  error := hup.error.trans hk.error

lemma known_of_eq (hk : h.Known) (hup : Upkeep h h') (hs : SameRequests h h') : h'.Known :=
  known_of_same hk hup fun _ => by rw [hs.requests]

lemma known_interest (hk : h.Known) : h.refreshInterest.Known :=
  known_of_eq hk (.refreshInterest h) (.refreshInterest h)

lemma known_answer (hk : h.Known) (hun : h'.unanswered = h.unanswered.erase req)
    (hkeys : ∀ r, r ∈ h'.outstandingRequests.keys ↔ r ∈ h.outstandingRequests.keys ∧ r ≠ req)
    (herr : h'.error = h.error) : h'.Known where
  once r := by
    have hr := hk.once r
    rw [hun]
    simp only [hkeys]
    rcases eq_or_ne r req with rfl | hne
    · rw [count_erase_self, hr]
      simp only [ne_eq, not_true_eq_false, and_false, if_false]
      split <;> rfl
    · rw [count_erase_of_ne hne, hr]
      simp only [hne, ne_eq, not_false_eq_true, and_true]
  error := herr.trans hk.error

lemma mem_dropRequest (h : Handler) (req r : BlockRequest) :
    r ∈ (h.dropRequest req).outstandingRequests.keys ↔
      r ∈ h.outstandingRequests.keys ∧ r ≠ req := by
  rw [dropRequest, AList.keys_erase, h.outstandingRequests.keys_nodup.mem_erase_iff, and_comm]

def CancelsNone (h : Handler) : Prop := ∀ req ∈ h.downloadCancels, req ∉ h.outstandingRequests.keys

instance (h : Handler) : Decidable h.CancelsNone :=
  inferInstanceAs (Decidable (∀ req ∈ h.downloadCancels, req ∉ h.outstandingRequests.keys))

lemma mem_drain_of_cancelsNone (hc : h.CancelsNone) (r : BlockRequest) :
    r ∈ h.drainDownloadCancels.outstandingRequests.keys ↔ r ∈ h.outstandingRequests.keys := by
  rw [mem_drain_keys]
  exact ⟨And.left, fun hr => ⟨hr, fun hm => hc r hm hr⟩⟩

/-! ## Messages -/

lemma onPiece_requests (h : Handler) (index start : Nat) (data : Bytes) :
    (h.onPiece index start data).unanswered = h.unanswered ∧
      (h.onPiece index start data).error = h.error ∧
      (h.onPiece index start data).outstandingRequests =
        (h.dropRequest (pieceRequest index start data)).outstandingRequests := by
  have hup := Upkeep.delivered h (pieceRequest index start data)
  have hkeys : (h.delivered (pieceRequest index start data)).outstandingRequests =
      (h.dropRequest (pieceRequest index start data)).outstandingRequests :=
    (SameRequests.progressed _ _).requests
  unfold onPiece
  simp only
  split
  · have hint := Upkeep.refreshInterest
    refine ⟨(hint _).unanswered.trans hup.unanswered, (hint _).error.trans hup.error, ?_⟩
    exact (SameRequests.refreshInterest _).requests.trans hkeys
  · exact ⟨hup.unanswered, hup.error, hkeys⟩

lemma onPiece_cancels (h : Handler) (index start : Nat) (data : Bytes) :
    (h.onPiece index start data).downloadCancels = h.downloadCancels := by
  have hdel : (h.delivered (pieceRequest index start data)).downloadCancels = h.downloadCancels :=
    (SameRequests.progressed _ _).cancels
  unfold onPiece
  simp only
  split
  · exact (SameRequests.refreshInterest _).cancels.trans hdel
  · exact hdel

lemma onRejectRequest_requests (hreq : req ∈ h.outstandingRequests.keys) :
    (h.onRejectRequest req).unanswered = h.unanswered ∧ (h.onRejectRequest req).error = h.error ∧
      (h.onRejectRequest req).outstandingRequests = (h.dropRequest req).outstandingRequests := by
  have hup := Upkeep.refill ((h.dropRequest req).releaseReservation req.index)
  rw [onRejectRequest, if_pos hreq]
  exact ⟨hup.unanswered, hup.error, (SameRequests.refill _).requests⟩

def CompliantMessage (h : Handler) : PeerMessage → Prop
  | .piece index start data => pieceRequest index start data ∈ h.unanswered
  | .rejectRequest req => req ∈ h.unanswered
  | _ => True

instance (h : Handler) : DecidablePred h.CompliantMessage := by
  intro m
  rcases m <;> unfold CompliantMessage <;> infer_instance

section

variable (hk : h.Known)
include hk

lemma known_onMessage {m : PeerMessage} (hfast : h.fastExtension)
    (hm : (∀ index start data, m ≠ .piece index start data) ∧ ∀ req, m ≠ .rejectRequest req) :
    (h.onMessage m).Known := by
  cases m with
  | choke =>
    simp only [onMessage]
    rw [if_pos hfast]
    exact { hk with }
  | unchoke =>
    have hset : ({ h with chocked := false } : Handler).Known := { hk with }
    exact known_of_eq hset (.armPipeline _) (.armPipeline _)
  | allowedFast index =>
    simp only [onMessage]
    rw [if_neg (by simp [hfast])]
    split <;> exact { hk with }
  | bitfield bits needsFast =>
    simp only [onMessage]
    rw [if_neg (by simp [hfast])]
    have hset : ({ h with bitfield := bits } : Handler).Known := { hk with }
    exact known_interest hset
  | rejectRequest req => exact absurd rfl (hm.2 req)
  | piece index start data => exact absurd rfl (hm.1 index start data)
  | reqq n =>
    simp only [onMessage]
    split
    · exact hk
    · have hset : ({ h with peerReqq := max 1 (min n maxPipelineDepth) } : Handler).Known :=
        { hk with }
      split
      · exact known_of_eq hset (.setPipelineDepth _ _) (.setPipelineDepth _ _)
      · exact hset

lemma known_onReceivedMessage {m : PeerMessage} (hfast : h.fastExtension)
    (hc : h.CancelsNone) (hm : h.CompliantMessage m) : (h.onReceivedMessage m).Known := by
  have hdrain : h.drainDownloadCancels.Known :=
    known_of_same hk (.drainDownloadCancels h) (mem_drain_of_cancelsNone hc)
  have hfast' := (Upkeep.drainDownloadCancels h).fast.trans hfast
  cases m with
  | rejectRequest req =>
    have hkeys := mem_drain_of_cancelsNone (h := h.answered req) hc
    have hup := Upkeep.drainDownloadCancels (h.answered req)
    obtain ⟨hun, herr, hreqs⟩ := onRejectRequest_requests ((hkeys req).2 (hk.mem_keys hm))
    have hfast₁ : ¬ (!(h.answered req).drainDownloadCancels.fastExtension) := by
      simpa using hup.fast.trans hfast
    have hmsg : h.onReceivedMessage (.rejectRequest req) =
        (h.answered req).drainDownloadCancels.onRejectRequest req := if_neg hfast₁
    rw [hmsg]
    refine known_answer hk (hun.trans hup.unanswered) (fun r => ?_) (herr.trans hup.error)
    rw [hreqs, mem_dropRequest, hkeys]
    rfl
  | piece index start data =>
    have hkeys := mem_drain_of_cancelsNone (h := h.answered (pieceRequest index start data)) hc
    have hup := Upkeep.drainDownloadCancels (h.answered (pieceRequest index start data))
    obtain ⟨hun, herr, hreqs⟩ := onPiece_requests
      (h.answered (pieceRequest index start data)).drainDownloadCancels index start data
    refine known_answer hk (hun.trans hup.unanswered) (fun r => ?_) (herr.trans hup.error)
    rw [onReceivedMessage, onMessage, noteAnswer, hreqs, mem_dropRequest, hkeys]
    rfl
  | _ => exact known_onMessage hdrain hfast' (by simp)

lemma known_onVerified (v : Verification) {ok banned : Bool} (hb : ok ∨ banned = false) :
    (h.onVerified v ok banned).Known := by
  unfold onVerified
  simp only
  split
  · exact known_interest (h := { h with verifying := none, table := _ }) { hk with }
  · rename_i hok
    rw [hb.resolve_left hok]
    exact known_interest (h := { h with verifying := none, table := _ }) { hk with }

/-! ## The requester -/

lemma known_upkeep (hs : h.stale = []) (hc : h.CancelsNone) (hu : h.unwanted = []) :
    h.upkeep.Known := by
  have hkeys := (SameRequests.maybeSnub h).requests
  have hcancels := (SameRequests.maybeSnub h).cancels
  have hsnub := known_of_eq hk (.maybeSnub h) (.maybeSnub h)
  have hc' : h.maybeSnub.CancelsNone := by
    rw [CancelsNone, hkeys, hcancels]
    exact hc
  have hdrain := known_of_same hsnub (.drainDownloadCancels _) (mem_drain_of_cancelsNone hc')
  have hun : h.maybeSnub.drainDownloadCancels.unwanted = [] := by
    have hflags := (Upkeep.maybeSnub h).flags.trans (Upkeep.drainDownloadCancels _).flags
    refine filter_eq_nil_iff.2 fun req hreq hw => ?_
    have hmem : req ∈ h.outstandingRequests.keys := by
      rwa [mem_drain_of_cancelsNone hc', hkeys] at hreq
    have hwant : h.table.wanted req.index := by
      simpa using filter_eq_nil_iff.1 hu req hmem
    rw [hflags.wanted, hwant] at hw
    cases hw
  unfold upkeep
  rw [expire_eq (by rw [stale_maybeSnub, hs])]
  rw [cancelUnwantedOutstanding, hun, foldl_nil]
  exact known_interest hdrain

lemma known_readied {h₁ : Handler} (hs : h.stale = [])
    (htop : h.requester = .top → h.CancelsNone ∧ h.unwanted = []) (hr : Readied h h₁) :
    h₁.Known := by
  induction hr with
  | same => exact hk
  | interest _ ih => exact known_interest ih
  | upkeep ht => exact known_upkeep hk hs (htop ht).1 (htop ht).2
  | await =>
    rw [expire_eq hs]
    exact known_of_eq hk (.maybeSnub h) (.maybeSnub h)

lemma known_moves (hs : h.stale = []) (htop : h.requester = .top → h.CancelsNone ∧ h.unwanted = [])
    (hm : Moves h h') : h'.Known := by
  obtain @⟨h₁, t, r, hr, -, -, -, -⟩ := hm
  have hk₁ := known_readied hk hs htop hr
  exact ⟨hk₁.once, hk₁.error⟩

lemma known_handOver (hreq : req ∉ h.outstandingRequests.keys) (table : TorrentDownloadedState) :
    (handOver { h with table } req).Known where
  once r := by
    have hr := hk.once r
    simp only [handOver, send, count_append, AList.keys_insert, erase_of_not_mem hreq, mem_cons]
    rcases eq_or_ne r req with rfl | hne
    · rw [hr, if_neg hreq, if_pos (.inl rfl), count_singleton_self]
    · simp [hr, hne, hne.symm]
  error := hk.error

end

/-- No request is dropped, and none is sent that is outstanding. -/
def RemembersRequest (h : Handler) : Prop :=
  h.MeteredRequest ∧ (h.requester = .top → h.CancelsNone ∧ h.unwanted = [])

instance (h : Handler) : Decidable h.RemembersRequest :=
  inferInstanceAs (Decidable (_ ∧ _))

lemma known_request {choice : Nat} (hk : h.Known) (hm : h.RemembersRequest)
    (hr : h.request choice = some h') : h'.Known := by
  obtain ⟨⟨hs, hm⟩, htop⟩ := hm
  cases request_cases hr with
  | moves _ hmoves => exact known_moves hk hs htop hmoves
  | take => exact { hk with }
  | giveBack =>
    have hback := known_of_eq hk (.refill h) (.refill h)
    exact { hback with }
  | handOver loop req todo table hreq _ hassign =>
    rw [hreq] at hm
    have hover := known_handOver hk (hm.resolve_right (by simp [hassign])) table
    exact { hover with }

lemma known_timeout (hk : h.Known) (hs : h.stale = []) (hr : h.timeout = some h') : h'.Known := by
  cases timeout_cases hr with
  | snubbed since hreq hmoves =>
    refine known_moves hk hs (fun ht => ?_) hmoves
    cases hreq.symm.trans ht
  | slot loop req todo since hreq hmoves =>
    have hs' : h.halvePipeline.stale = [] := (stale_setPipelineDepth h _).trans hs
    have hup := Upkeep.setPipelineDepth h (max (h.pipelineDepth / 2) 1)
    rw [expire_eq hs'] at hmoves
    refine known_moves (known_of_eq hk hup (.setPipelineDepth h _)) hs' (fun ht => ?_) hmoves
    cases hreq.symm.trans (hup.requester.symm.trans ht)

end Handler

/-! ## Runs -/

namespace Download

/-- The peer `p` answers each request once. -/
def Compliant (p : PeerAddr) (d : Download) (a : DownloadAct) : Prop :=
  ∀ h ∈ d.live p, match a with
    | .message q m => q = p → h.CompliantMessage m
    | _ => True

instance (p : PeerAddr) (d : Download) : DecidablePred (d.Compliant p) := by
  intro a
  rcases a <;> unfold Compliant <;> infer_instance

/-- The steps of the connection of `p` that drop no request unanswered, and do not ban `p`. -/
def Remembers (p : PeerAddr) (d : Download) (a : DownloadAct) : Prop :=
  ∀ h ∈ d.live p, match a with
    | .message q _ => q = p → h.CancelsNone
    | .verified q ok => q = p → ok ∨ ∀ v ∈ h.verifying, d.bans v.index p = false
    | .request q _ => q = p → h.RemembersRequest
    | .timeout q => q = p → h.stale = []
    | _ => True

instance (p : PeerAddr) (d : Download) : DecidablePred (d.Remembers p) := by
  intro a
  rcases a <;> unfold Remembers <;> infer_instance

/-- In a run in which no request is dropped unanswered, a peer with the fast extension that answers
each request once is not disconnected for an answer. -/
theorem answers_accepted {p : PeerAddr} {d d' : Download} {as : List DownloadAct}
    (hd : d.conns p = none)
    (hrun : Run step (fun d a => d.Compliant p a ∧ d.Remembers p a) d as d') :
    ∀ c, d'.conns p = some c → c.fastExtension → c.error = none := by
  have hknown : ∀ c, d'.conns p = some c → c.fastExtension → c.Known := by
    refine conn_inv (P := fun c => c.fastExtension → c.Known) (fun fast now _ => ?_) (fun c
      reqs hk hfast => ⟨(hk hfast).once, (hk hfast).error⟩) (fun {d a h h'} hok hl hp ha hk hfast =>
      ?_) hrun (fun c hc => absurd (hd.symm.trans hc) nofun)
    · exact ⟨fun _ => rfl, rfl⟩
    · have hfast₀ : h.fastExtension := ha.fast.symm.trans hfast
      have hk := hk hfast₀
      have hcomp := hok.1 h hl
      have hrem := hok.2 h hl
      cases ha with
      | message m _ => exact Handler.known_onReceivedMessage hk hfast₀ (hrem hp) (hcomp hp)
      | verified v ok hv =>
        refine Handler.known_onVerified hk v ?_
        rw [hp]
        exact (hrem hp).imp id fun hb => hb v hv
      | request hr => exact Handler.known_request hk (hrem hp) hr
      | timeout hr => exact Handler.known_timeout hk (hrem hp) hr
  exact fun c hc hfast => (hknown c hc hfast).error

def oneRejected : List DownloadAct :=
  asked true 5 ++ [.request (localPeer 1) 1, .request (localPeer 1) 0, .request (localPeer 1) 0,
    .request (localPeer 1) 0, .message (localPeer 1) (.rejectRequest ⟨0, 0, 2⟩),
    .message (localPeer 1) (.piece 1 0 [7, 8]), .verified (localPeer 1) true]

theorem answers_accepted_two :
    ∃ d c, Run step (fun d a => d.Compliant (localPeer 1) a ∧ d.Remembers (localPeer 1) a) twoPieces
        oneRejected d ∧
      d.conns (localPeer 1) = some c ∧ c.fastExtension ∧
      c.sent.count (.request ⟨0, 0, 2⟩) = 1 ∧ c.sent.count (.request ⟨1, 0, 2⟩) = 1 ∧
      c.unanswered = [] ∧ c.error = none :=
  have hrun := Run.of_isSome
  have hc := eq_some_get
  ⟨_, _, hrun, hc, by decide +kernel, by decide +kernel, by decide +kernel, by decide +kernel,
    answers_accepted rfl hrun _ hc (by decide +kernel)⟩

def lateReject : List DownloadAct :=
  asked true 5 ++ [.tick 20000, .request (localPeer 1) 0,
    .message (localPeer 1) (.rejectRequest ⟨0, 0, 2⟩)]

/-- Without the condition the peer is disconnected for the reject of a request that has expired. -/
theorem answers_accepted_late :
    ¬ ∀ (p : PeerAddr) (d d' : Download) (as : List DownloadAct), d.conns p = none →
      Run step (Compliant p) d as d' →
      ∀ c, d'.conns p = some c → c.fastExtension → c.error = none := by
  intro h
  have hrun : Run step (Compliant (localPeer 1)) twoPieces lateReject _ := .of_isSome
  have hnone := h _ _ _ _ rfl hrun _ eq_some_get (by decide +kernel)
  exact absurd hnone (by decide +kernel)

end Download

end BitRev
