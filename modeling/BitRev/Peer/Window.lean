import BitRev.Framework.Credits
import BitRev.Peer.Steps

/-!
# The pipeline keeps its slots

The pipeline of a connection is a window of requests (`Credits`): the semaphore has the permits, the
outstanding requests are those in use, and a slot the requester has acquired is held. Each function
of the handler is an operation on the window, or none.

`Download.pipeline_accounted`: in every run whose steps all meet `Download.Metered`, no slot is lost
or made up. `Metered` names the steps that break this: a request that expires does not give back
its slot; a `Piece` for a request that is no longer outstanding gives one back twice; a request that
is sent again while it is outstanding takes two; the depth that shrinks while the pipeline is not
armed leaves a debt of slots that were never there; and a choke without the fast extension drops
the slots but the one the requester has acquired.
-/

namespace BitRev

open TorrentDownloadedState List

namespace ConnState

/-- The window of the connection. -/
def credits (c : ConnState) : Credits where
  permits := c.requestsSem
  used := c.outstandingRequests.keys.length
  held := c.requester.held
  depth := c.pipelineDepth
  debt := c.pipelineDebt
  armed := c.pipelineArmed
  largest := c.largestDepth

structure Accounted (c : ConnState) : Prop where
  conserved : c.pipelineArmed →
    c.requestsSem + c.outstandingRequests.keys.length + c.requester.held =
      c.pipelineDepth + c.pipelineDebt
  bounded : c.outstandingRequests.keys.length ≤ c.largestDepth
  ready : c.pipelineArmed → c.outstandingRequests.keys = [] → 0 < c.requestsSem

structure Level (c : ConnState) : Prop where
  balanced : c.credits.Balanced
  bound : c.pipelineDepth ≤ max 1 (min c.peerReqq maxPipelineDepth)

lemma Level.accounted {c : ConnState} (h : c.Level) : c.Accounted where
  conserved := h.balanced.armed
  bounded := h.balanced.used_le
  ready ha hnil := by
    have hheld : c.requester.held ≤ 1 := by cases c.requester <;> simp [Requester.held]
    exact h.balanced.permits_pos ha (by simp [credits, hnil]) hheld

end ConnState

namespace Handler

variable {h : Handler} {req : BlockRequest}

/-! ## The functions as operations on the window -/

lemma credits_refill (h : Handler) : h.refillPipelineSlot.credits = h.credits.refill := by
  unfold refillPipelineSlot
  split_ifs with hz
  · exact (if_pos hz).symm
  · exact (if_neg hz).symm

lemma credits_setPipelineDepth (h : Handler) (n : Nat) :
    (h.setPipelineDepth n).credits = h.credits.resize (max 1 (min n h.maxPipeline)) := by
  unfold setPipelineDepth
  simp only
  split
  · rename_i heq
    exact (if_pos heq).symm
  · rename_i hne
    refine Eq.trans ?_ (if_neg hne).symm
    split
    · rename_i hgt
      refine Eq.trans ?_ (if_pos hgt).symm
      split
      · rename_i ha
        exact (if_pos ha).symm
      · rename_i ha
        exact (if_neg ha).symm
    · rename_i hle
      exact (if_neg hle).symm

lemma setPipelineDepth_bound (h : Handler) (n : Nat) :
    (h.setPipelineDepth n).pipelineDepth = max 1 (min n h.maxPipeline) ∧
      (h.setPipelineDepth n).peerReqq = h.peerReqq := by
  unfold setPipelineDepth
  simp only
  split
  · exact ⟨rfl, rfl⟩
  · split
    · split <;> exact ⟨rfl, rfl⟩
    · exact ⟨rfl, rfl⟩

lemma refill_bound (h : Handler) : h.refillPipelineSlot.pipelineDepth = h.pipelineDepth ∧
      h.refillPipelineSlot.peerReqq = h.peerReqq := by
  unfold refillPipelineSlot
  split <;> exact ⟨rfl, rfl⟩

lemma level_refill (hb : h.credits.refill.Balanced)
    (hbound : h.pipelineDepth ≤ max 1 (min h.peerReqq maxPipelineDepth)) :
    h.refillPipelineSlot.Level :=
  ⟨credits_refill h ▸ hb, by rw [(refill_bound h).1, (refill_bound h).2]; exact hbound⟩

lemma credits_dropRequest (hreq : req ∈ h.outstandingRequests.keys) :
    (h.dropRequest req).credits = { h.credits with used := h.credits.used - 1 } := by
  simp only [ConnState.credits, dropRequest, AList.keys_erase, length_erase_of_mem hreq]

section

variable (hl : h.Level)
include hl

lemma level_finish (hreq : req ∈ h.outstandingRequests.keys) :
    (h.dropRequest req).refillPipelineSlot.Level := by
  refine level_refill ?_ hl.bound
  rw [credits_dropRequest hreq]
  exact hl.balanced.finish (length_pos_of_mem hreq)

lemma level_giveBack (hheld : h.requester.held = 1) {r : Requester} (hr : r.held = 0) :
    ({ h.refillPipelineSlot with requester := r } : Handler).Level := by
  have hcredits : ({ h with requester := r } : Handler).credits =
      { h.credits with held := h.credits.held - 1 } := by
    simp only [ConnState.credits, hheld, hr]
  have hcomm : ({ h.refillPipelineSlot with requester := r } : Handler) =
      refillPipelineSlot { h with requester := r } := by
    unfold refillPipelineSlot
    split <;> rfl
  have hpos : 0 < h.credits.held := by
    rw [ConnState.credits, hheld]
    exact one_pos
  rw [hcomm]
  exact level_refill (hcredits ▸ hl.balanced.giveBack hpos) hl.bound

lemma level_shrink {n : Nat} (hn : 2 ≤ n) (hle : n ≤ h.pipelineDepth) (ha : h.pipelineArmed)
    (hmax : n ≤ h.maxPipeline) : (h.setPipelineDepth n).Level := by
  have hnew : max 1 (min n h.maxPipeline) = n := by omega
  obtain ⟨hd, hr⟩ := setPipelineDepth_bound h n
  refine ⟨?_, ?_⟩
  · rw [credits_setPipelineDepth, hnew]
    exact hl.balanced.shrink hle hn (.inr ha)
  · rw [hd, hr, hnew]
    exact hmax

/-! ## The functions of the handler -/

lemma level_drainCancel (req : BlockRequest) : (h.drainCancel req).Level := by
  unfold drainCancel
  split_ifs with hreq
  · exact level_finish hl hreq
  · exact hl

lemma level_drain : h.drainDownloadCancels.Level :=
  drain_inv (P := fun h => h.Level) (fun _ req hl => level_drainCancel hl req)
    { hl with }

lemma level_cancelUnwanted : h.cancelUnwantedOutstanding.Level := by
  have hfold : ∀ (l : List BlockRequest) (h : Handler), h.Level → l.Nodup →
      (∀ req ∈ l, req ∈ h.outstandingRequests.keys) → (l.foldl cancelRequest h).Level := by
    intro l
    induction l with
    | nil => exact fun _ hl _ _ => hl
    | cons req l ih =>
      intro h hl hnd hmem
      obtain ⟨hreq, hnd⟩ := nodup_cons.1 hnd
      refine ih _ ?_ hnd fun r hr => ?_
      · exact level_finish (h := (h.send (.cancel req)).releaseReservation req.index)
          { hl with } (hmem req mem_cons_self)
      · -- the requests are different ones
        have hkeys : (h.cancelRequest req).outstandingRequests.keys =
            h.outstandingRequests.keys.erase req := by
          unfold cancelRequest refillPipelineSlot
          split <;> exact AList.keys_erase _ _
        rw [hkeys]
        have hne : r ≠ req := fun he => hreq (he ▸ hr)
        exact (mem_erase_of_ne hne).2 (hmem r (mem_cons_of_mem _ hr))
  exact hfold _ _ hl (h.outstandingRequests.keys_nodup.filter _) fun req hreq =>
    mem_of_mem_filter hreq

lemma level_refreshInterest : h.refreshInterest.Level := by
  unfold refreshInterest
  simp only
  split
  · exact hl
  · exact { hl with }

lemma level_maybeSnub : h.maybeSnub.Level := by
  unfold maybeSnub
  simp only
  split
  · exact { hl with }
  · exact hl

end

lemma expire_eq (hs : h.stale = []) : h.expireStaleRequests = h := by
  unfold expireStaleRequests
  rw [hs]

lemma stale_maybeSnub (h : Handler) : h.maybeSnub.stale = h.stale := by
  unfold maybeSnub
  simp only
  split <;> rfl

lemma stale_setPipelineDepth (h : Handler) (n : Nat) : (h.setPipelineDepth n).stale = h.stale := by
  unfold setPipelineDepth
  simp only
  split
  · rfl
  · split
    · split <;> rfl
    · rfl

lemma level_upkeep (hl : h.Level) (hs : h.stale = []) : h.upkeep.Level := by
  unfold upkeep
  rw [expire_eq (by rw [stale_maybeSnub, hs])]
  exact level_refreshInterest (level_cancelUnwanted (level_drain (level_maybeSnub hl)))

lemma level_requeue (hl : h.Level) (hheld : h.requester.held = 0) : h.requeueOutstanding.Level :=
  ⟨hl.balanced.disarm hheld, hl.bound⟩

lemma level_arm (hl : h.Level) : h.armPipeline.Level := by
  have hcredits : h.armPipeline.credits = h.credits.arm := by
    unfold armPipeline
    split_ifs with ha
    · exact (if_pos ha).symm
    · exact (if_neg ha).symm
  refine ⟨hcredits ▸ hl.balanced.arm, ?_⟩
  unfold armPipeline
  split <;> exact hl.bound

lemma level_grow {c : Credits} (hc : h.credits = { c with used := c.used - 1 }) (hb : c.Balanced)
    (hpos : 0 < c.used) (hbound : h.pipelineDepth ≤ h.maxPipeline) :
    h.growPipeline.refillPipelineSlot.Level := by
  unfold growPipeline
  split_ifs with hlt
  · have hnew : max 1 (min (h.pipelineDepth + 1) h.maxPipeline) = c.depth + 1 := by
      have hd : h.pipelineDepth = c.depth := congrArg Credits.depth hc
      omega
    obtain ⟨hd, hr⟩ := setPipelineDepth_bound h (h.pipelineDepth + 1)
    refine level_refill ?_ ?_
    · rw [credits_setPipelineDepth, hnew, hc]
      exact hb.growFinish hpos
    · rw [hd, hr]
      exact Nat.max_le.2 ⟨le_max_left _ _, min_le_right _ _⟩
  · exact level_refill (hc ▸ hb.finish hpos) hbound

lemma level_delivery (hl : h.Level) (hreq : req ∈ h.outstandingRequests.keys) (bytes : Nat) :
    ((h.dropRequest req).onDeliveryProgress bytes).refillPipelineSlot.Level := by
  have hpos : 0 < h.credits.used := length_pos_of_mem hreq
  have hdrop := credits_dropRequest hreq
  have hfin : (h.dropRequest req).credits.refill.Balanced := hdrop ▸ hl.balanced.finish hpos
  unfold onDeliveryProgress
  simp only
  split
  · split
    · exact level_grow hdrop hl.balanced hpos hl.bound
    · exact level_refill hfin hl.bound
  · exact level_refill hfin hl.bound

lemma level_onPiece {index start : Nat} {data : Bytes} (hl : h.Level)
    (hreq : pieceRequest index start data ∈ h.outstandingRequests.keys) :
    (h.onPiece index start data).Level := by
  have hdel : (h.delivered (pieceRequest index start data)).Level :=
    level_delivery (h := { h with
      table := (h.table.noteBlockReceived (pieceRequest index start data) h.peer).1 })
      { hl with } hreq (pieceRequest index start data).length
  unfold onPiece
  simp only
  split
  · exact level_refreshInterest { hdel with }
  · exact { hdel with }

/-! ## Messages -/

lemma mem_drain_keys (h : Handler) (r : BlockRequest) :
    r ∈ h.drainDownloadCancels.outstandingRequests.keys ↔
      r ∈ h.outstandingRequests.keys ∧ r ∉ h.downloadCancels := by
  have hone : ∀ (h : Handler) (req : BlockRequest),
      r ∈ (h.drainCancel req).outstandingRequests.keys ↔ r ∈ h.outstandingRequests.keys ∧ r ≠ req := by
    intro h req
    unfold drainCancel
    split_ifs with hno
    · have hkeys : (h.dropRequest req).refillPipelineSlot.outstandingRequests.keys =
          h.outstandingRequests.keys.erase req := by
        unfold refillPipelineSlot
        split <;> exact AList.keys_erase _ _
      rw [hkeys, h.outstandingRequests.keys_nodup.mem_erase_iff, and_comm]
    · refine ⟨fun hr => ⟨hr, fun he => hno (he ▸ hr)⟩, And.left⟩
  have hfold : ∀ (l : List BlockRequest) (h : Handler),
      r ∈ (l.foldl drainCancel h).outstandingRequests.keys ↔
        r ∈ h.outstandingRequests.keys ∧ r ∉ l := by
    intro l
    induction l with
    | nil => simp
    | cons req l ih =>
      intro h
      rw [foldl_cons, ih, hone, mem_cons, not_or, and_assoc]
  exact hfold _ _

lemma drain_pipeline (h : Handler) : h.drainDownloadCancels.pipelineDepth = h.pipelineDepth ∧
      h.drainDownloadCancels.pipelineArmed = h.pipelineArmed ∧
      h.drainDownloadCancels.downloadCancels = [] := by
  refine drain_inv (P := fun h' => h'.pipelineDepth = h.pipelineDepth ∧ h'.pipelineArmed =
    h.pipelineArmed ∧ h'.downloadCancels = []) (fun h' req hp => ?_) ⟨rfl, rfl, rfl⟩
  unfold drainCancel refillPipelineSlot
  split
  · split <;> exact hp
  · exact hp

/-- A message that neither gives back a slot twice nor leaves one behind. -/
def MeteredMessage (h : Handler) : PeerMessage → Prop
  | .piece index start data =>
    pieceRequest index start data ∈ h.outstandingRequests.keys ∧
      pieceRequest index start data ∉ h.downloadCancels
  | .choke => h.fastExtension ∨ h.requester.held = 0
  | .reqq n => n = 0 ∨ h.pipelineDepth ≤ n ∨ (h.pipelineArmed ∧ 2 ≤ n)
  | _ => True

instance (h : Handler) : DecidablePred h.MeteredMessage := by
  intro m
  rcases m <;> unfold MeteredMessage <;> infer_instance

section

variable (hl : h.Level)
include hl

lemma level_reqq {n : Nat} (hn : h.pipelineDepth ≤ n ∨ (h.pipelineArmed ∧ 2 ≤ n))
    (h0 : n ≠ 0) : (h.onMessage (.reqq n)).Level := by
  have hbig : 2 ≤ maxPipelineDepth := by decide
  have hb := hl.bound
  simp only [onMessage, if_neg h0]
  split_ifs with hgt
  · obtain ⟨ha, h2⟩ : h.pipelineArmed ∧ 2 ≤ n := hn.resolve_left (by omega)
    have hmax : max 1 (min (max 1 (min n maxPipelineDepth))
        (maxPipeline { h with peerReqq := max 1 (min n maxPipelineDepth) })) =
        max 1 (min n maxPipelineDepth) := by
      simp only [maxPipeline]
      omega
    obtain ⟨hd, hr⟩ := setPipelineDepth_bound
      { h with peerReqq := max 1 (min n maxPipelineDepth) } (max 1 (min n maxPipelineDepth))
    refine ⟨?_, ?_⟩
    · rw [credits_setPipelineDepth, hmax]
      exact hl.balanced.shrink (le_of_lt hgt) (by omega) (.inr ha)
    · rw [hd, hr, hmax]
      simp only
      omega
  · refine ⟨hl.balanced, ?_⟩
    simp only
    omega

lemma level_onMessage {m : PeerMessage} (hm : h.MeteredMessage m) : (h.onMessage m).Level := by
  cases m with
  | choke =>
    simp only [onMessage]
    split_ifs with hfast
    · exact { hl with }
    · exact level_requeue (h := { h with chocked := true }) { hl with }
        (hm.resolve_left hfast)
  | unchoke => exact level_arm (h := { h with chocked := false }) { hl with }
  | allowedFast index =>
    simp only [onMessage]
    split
    · exact { hl with }
    · split
      · exact hl
      · exact { hl with }
  | bitfield bits needsFast =>
    simp only [onMessage]
    split
    · exact { hl with }
    · exact level_refreshInterest { hl with }
  | rejectRequest req =>
    simp only [onMessage, onRejectRequest]
    split
    · exact { hl with }
    · split_ifs with hreq
      · exact level_finish (h := h.releaseReservation req.index) { hl with } hreq
      · exact { hl with }
  | piece index start data => exact level_onPiece hl hm.1
  | reqq n =>
    by_cases h0 : n = 0
    · simp only [onMessage, if_pos h0]
      exact hl
    · exact level_reqq hl (hm.resolve_left h0) h0

lemma level_onReceivedMessage {m : PeerMessage} (hm : h.MeteredMessage m) :
    (h.onReceivedMessage m).Level := by
  have hnote : (h.noteAnswer m).Level ∧ (h.noteAnswer m).MeteredMessage m := by
    cases m <;> exact ⟨{ hl with }, hm⟩
  refine level_onMessage (level_drain hnote.1) ?_
  have hm := hnote.2
  generalize h.noteAnswer m = h at hm ⊢
  have hup := Upkeep.drainDownloadCancels h
  obtain ⟨hd, ha, hnil⟩ := drain_pipeline h
  cases m with
  | choke => exact hm.imp (hup.fast.trans ·) fun hr => by rw [hup.requester, hr]
  | piece index start data =>
    refine ⟨(mem_drain_keys h _).2 hm, ?_⟩
    rw [hnil]
    exact not_mem_nil
  | reqq n => exact hm.imp id (Or.imp (hd.trans_le ·) fun hr => ⟨ha.trans hr.1, hr.2⟩)
  | unchoke | allowedFast | bitfield | rejectRequest => trivial

lemma level_onVerified (v : Verification) (ok banned : Bool) :
    (h.onVerified v ok banned).Level := by
  unfold onVerified
  simp only
  split
  · exact level_refreshInterest { hl with }
  · split
    · exact { hl with }
    · exact level_refreshInterest { hl with }

/-! ## The requester -/

lemma level_readied {h₁ : Handler} (hs : h.stale = []) (hr : Readied h h₁) : h₁.Level := by
  induction hr with
  | same => exact hl
  | interest _ ih => exact level_refreshInterest ih
  | upkeep => exact level_upkeep hl hs
  | await =>
    rw [expire_eq hs]
    exact level_maybeSnub hl

/-- The requester goes on without a slot. -/
lemma level_moves {h' : Handler} (hheld : h.requester.held = 0) (hs : h.stale = [])
    (hm : Moves h h') : h'.Level := by
  obtain @⟨h₁, t, r, hr, -, -, hheld', -⟩ := hm
  have hl₁ := level_readied hl hs hr
  have hcredits : ({ h₁ with table := t, requester := r } : Handler).credits = h₁.credits := by
    simp only [ConnState.credits, hheld', hr.toUpkeep.requester, hheld]
  exact ⟨hcredits ▸ hl₁.balanced, hl₁.bound⟩

/-- A request is sent with the slot. -/
lemma level_handOver (hheld : h.requester.held = 1) (hreq : req ∉ h.outstandingRequests.keys)
    (table : TorrentDownloadedState) {r : Requester} (hr : r.held = 0) :
    ({ handOver { h with table } req with requester := r } : Handler).Level := by
  have hcredits : ({ handOver { h with table } req with requester := r } : Handler).credits =
      h.credits.spend := by
    simp only [ConnState.credits, Credits.spend, handOver, send, AList.keys_insert, length_cons,
      erase_of_not_mem hreq, hheld, hr]
  have hpos : 0 < h.credits.held := by
    rw [ConnState.credits, hheld]
    exact one_pos
  exact ⟨hcredits ▸ hl.balanced.spend hpos, hl.bound⟩

end

/-- No request has expired, and none is sent that is outstanding. -/
def MeteredRequest (h : Handler) : Prop :=
  h.stale = [] ∧ match h.requester with
    | .limited _ req _ =>
      req ∉ h.outstandingRequests.keys ∨ (h.table.assignBlock req h.peer h.now).2 = false
    | _ => True

instance (h : Handler) : Decidable h.MeteredRequest := by
  unfold MeteredRequest
  rcases h.requester <;> infer_instance

lemma level_request {h' : Handler} {choice : Nat} (hl : h.Level) (hm : h.MeteredRequest)
    (hr : h.request choice = some h') : h'.Level := by
  obtain ⟨hs, hm⟩ := hm
  cases request_cases hr with
  | moves hheld hmoves => exact level_moves hl hheld hs hmoves
  | take loop req todo since hreq hsem =>
    have hcredits : ({ h with
        requestsSem := h.requestsSem - 1, requester := .limited loop req todo } : Handler).credits =
        h.credits.take := by
      simp only [ConnState.credits, Credits.take, hreq, Requester.held]
    exact ⟨hcredits ▸ hl.balanced.take (pos_of_ne_zero hsem), hl.bound⟩
  | giveBack loop req todo r hreq hcase =>
    have hheld : h.requester.held = 1 := by rw [hreq]; rfl
    refine level_giveBack hl hheld ?_
    rcases hcase with rfl | rfl <;> rfl
  | handOver loop req todo table hreq _ hassign =>
    rw [hreq] at hm
    have hheld : h.requester.held = 1 := by rw [hreq]; rfl
    refine level_handOver hl hheld (hm.resolve_right ?_) table rfl
    simp [hassign]

/-- No request has expired, and the pipeline can be halved. -/
def MeteredTimeout (h : Handler) : Prop :=
  h.stale = [] ∧ match h.requester with
    | .slot _ _ _ _ => h.pipelineArmed ∧ 4 ≤ h.pipelineDepth
    | _ => True

instance (h : Handler) : Decidable h.MeteredTimeout := by
  unfold MeteredTimeout
  rcases h.requester <;> infer_instance

lemma level_timeout {h' : Handler} (hl : h.Level) (hm : h.MeteredTimeout)
    (hr : h.timeout = some h') : h'.Level := by
  obtain ⟨hs, hm⟩ := hm
  cases timeout_cases hr with
  | snubbed since hreq hmoves => exact level_moves hl (by rw [hreq]; rfl) hs hmoves
  | slot loop req todo since hreq hmoves =>
    rw [hreq] at hm
    have hhalf : h.halvePipeline.Level := by
      have hb := hl.bound
      have h4 := hm.2
      refine level_shrink hl ?_ ?_ hm.1 ?_
      · omega
      · omega
      · simp only [maxPipeline]
        omega
    have hs' : h.halvePipeline.stale = [] := (stale_setPipelineDepth h _).trans hs
    have hheld : h.halvePipeline.requester.held = 0 := by
      rw [halvePipeline, (Upkeep.setPipelineDepth h _).requester, hreq]
      rfl
    rw [expire_eq hs'] at hmoves
    exact level_moves hhalf hheld hs' hmoves

end Handler

/-! ## Runs -/

namespace Download

/-- The steps of the connection of `p` that keep its slots. -/
def Metered (p : PeerAddr) (d : Download) (a : DownloadAct) : Prop :=
  ∀ h ∈ d.live p, match a with
    | .message q m => q = p → h.MeteredMessage m
    | .request q _ => q = p → h.MeteredRequest
    | .timeout q => q = p → h.MeteredTimeout
    | _ => True

instance (p : PeerAddr) (d : Download) : DecidablePred (d.Metered p) := by
  intro a
  rcases a <;> unfold Metered <;> infer_instance

/-- In a run of metered steps, the slots of the pipeline of a connection are accounted for. -/
theorem pipeline_accounted {p : PeerAddr} {d d' : Download} {as : List DownloadAct}
    (hd : d.conns p = none) (hrun : Run step (Metered p) d as d') :
    ∀ c, d'.conns p = some c → c.Accounted := by
  have hlevel : ∀ c, d'.conns p = some c → c.Level := by
    refine conn_inv (fun fast now => ?_) (fun c reqs hl => { hl with })
      (fun {d a h h'} hok hl hp ha hlev => ?_) hrun (fun c hc => absurd (hd.symm.trans hc) nofun)
    · have hdeep : 2 ≤ initialPipeline := by decide
      have hbound : initialPipeline ≤ max 1 (min maxPipelineDepth maxPipelineDepth) := by decide
      exact ⟨⟨nofun, fun _ => ⟨rfl, rfl, rfl, rfl⟩, le_refl _, hdeep⟩, hbound⟩
    · have hmet := hok h hl
      cases ha with
      | message m hv => exact Handler.level_onReceivedMessage hlev (hmet hp)
      | verified v ok hv => exact Handler.level_onVerified hlev v ok _
      | request hr => exact Handler.level_request hlev (hmet hp) hr
      | timeout hr => exact Handler.level_timeout hlev (hmet hp) hr
  exact fun c hc => (hlevel c hc).accounted

def oneDelivered : List DownloadAct :=
  asked false 4 ++ [.message (localPeer 1) (.piece 0 0 [7, 8]), .request (localPeer 1) 0,
    .request (localPeer 1) 1, .request (localPeer 1) 0, .request (localPeer 1) 0,
    .request (localPeer 1) 0]

theorem pipeline_accounted_one :
    ∃ d c, Run step (Metered (localPeer 1)) twoPieces oneDelivered d ∧
      d.conns (localPeer 1) = some c ∧ c.outstandingRequests.keys = [⟨1, 0, 2⟩] ∧ c.Accounted :=
  have hrun := Run.of_isSome
  have hc := eq_some_get
  ⟨_, _, hrun, hc, by decide +kernel, pipeline_accounted rfl hrun _ hc⟩

def Answering (p : PeerAddr) (d : Download) (a : DownloadAct) : Prop :=
  ∀ c ∈ d.conns p, match a with
    | .message q (.piece index start data) =>
      q = p → .request (pieceRequest index start data) ∈ c.sent
    | .message q (.rejectRequest req) => q = p → .request req ∈ c.sent
    | _ => True

instance (p : PeerAddr) (d : Download) : DecidablePred (d.Answering p) := by
  intro a
  rcases a with _ | _ | ⟨q, m⟩ | _ | _ | _ | _ | _ | _ | _
  case message => rcases m <;> unfold Answering <;> infer_instance
  all_goals unfold Answering; infer_instance

/-- A block is requested and not answered for 20 s. -/
def oneExpired : List DownloadAct :=
  asked false 5 ++ [.tick 20000, .request (localPeer 1) 0]

/-- Without the condition a slot is lost when a request expires. -/
theorem pipeline_accounted_expired :
    ¬ ∀ (p : PeerAddr) (d d' : Download) (as : List DownloadAct), d.conns p = none →
      Run step (Answering p) d as d' → ∀ c, d'.conns p = some c → c.Accounted := by
  intro h
  have hrun : Run step (Answering (localPeer 1)) twoPieces oneExpired _ := .of_isSome
  have hacc := h _ _ _ _ rfl hrun _ eq_some_get
  -- four slots are left, for a depth of two and a debt of three
  exact absurd (hacc.conserved (by decide +kernel)) (by decide +kernel)

end Download

end BitRev
