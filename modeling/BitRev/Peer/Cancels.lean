import BitRev.Peer.Assignments

/-!
# Cancels

`Cancel` messages come from three places: the connection's own requester, which gives up requests
that have expired, the handler of another connection, which has received a block, and the session,
when the file priorities change. Each has its own view of what is outstanding.

`Download.cancels_exact` is about runs whose steps all meet `Download.Targeted`, which names the
steps that break it: those that leave the assignments out of step (`Tracked`), the expiry of a
request whose cancel waits, and a priority change that cancels at every peer what only some were
asked for.
-/

namespace BitRev

open TorrentDownloadedState Download List Function

namespace ConnState

def cancels (c : ConnState) (b : BlockRequest) : Nat := c.sent.count (.cancel b)

def requests (c : ConnState) (b : BlockRequest) : Nat := c.sent.count (.request b)

/-- A `Cancel` is sent for a block that is awaited, and is not any more then; what is awaited has
been requested, and is awaited until it is cancelled, or the peer has spoken. -/
structure Settles (spoken : Prop) (c c' : ConnState) : Prop where
  cancels : ∀ b, c'.cancels b ≠ c.cancels b →
    c.Awaits b ∧ c'.cancels b = c.cancels b + 1 ∧ ¬ c'.Awaits b
  requests : ∀ b, c.requests b ≤ c'.requests b
  awaits : ∀ b, c'.Awaits b → c.Awaits b ∨ c.requests b < c'.requests b
  ends : ∀ b, c.Awaits b → ¬ c'.Awaits b → c'.cancels b = c.cancels b + 1 ∨ spoken

/-- At most one `Cancel` for a `Request`, and none yet for one that is awaited. -/
def Covered (c : ConnState) : Prop :=
  ∀ b, c.cancels b ≤ c.requests b ∧ (c.Awaits b → c.cancels b < c.requests b)

variable {spoken : Prop} {c c' : ConnState}

lemma Covered.settles (h : c.Covered) (hs : Settles spoken c c') : c'.Covered := by
  intro b
  have hle := hs.requests b
  obtain ⟨hmost, hless⟩ := h b
  by_cases hsame : c'.cancels b = c.cancels b
  · refine ⟨by omega, fun haw => ?_⟩
    rcases hs.awaits b haw with haw | hmore
    · have := hless haw
      omega
    · omega
  · obtain ⟨haw, hone, hnot⟩ := hs.cancels b hsame
    have := hless haw
    exact ⟨by omega, fun haw => absurd haw hnot⟩

lemma Settles.of_cancelled {l : List BlockRequest} (hnodup : l.Nodup) (haw : ∀ b ∈ l, c.Awaits b)
    (hc : ∀ b, c'.cancels b = c.cancels b + l.count b) (hr : ∀ b, c'.requests b = c.requests b)
    (ha : ∀ b, c'.Awaits b ↔ c.Awaits b ∧ b ∉ l) : Settles spoken c c' := by
  have hone : ∀ b ∈ l, c'.cancels b = c.cancels b + 1 := by
    intro b hb
    rw [hc, count_eq_one_of_mem hnodup hb]
  refine ⟨fun b hne => ?_, fun b => (hr b).ge, fun b hb => .inl ((ha b).1 hb).1,
    fun b hb hnot => .inl (hone b ?_)⟩
  · have hmem : b ∈ l := by
      refine count_pos_iff.1 ?_
      have := hc b
      omega
    exact ⟨haw b hmem, hone b hmem, fun hb => ((ha b).1 hb).2 hmem⟩
  · by_contra hno
    exact hnot ((ha b).2 ⟨hb, hno⟩)

lemma cancels_push (c : ConnState) (reqs : List BlockRequest) (b : BlockRequest) :
    (pushCancels c reqs).cancels b = c.cancels b + reqs.count b ∧
      (pushCancels c reqs).requests b = c.requests b := by
  have hmap : (reqs.map WireMessage.cancel).count (.cancel b) = reqs.count b := by
    induction reqs with
    | nil => rfl
    | cons r reqs ih => simp [count_cons, ih]
  have hnone : (reqs.map WireMessage.cancel).count (.request b) = 0 := by
    simp [count_eq_zero]
  simp only [cancels, requests, pushCancels, count_append, hmap, hnone, true_and]
  rfl

lemma awaits_push (c : ConnState) (reqs : List BlockRequest) (b : BlockRequest) :
    (pushCancels c reqs).Awaits b ↔ c.Awaits b ∧ b ∉ reqs := by
  simp only [Awaits, pushCancels, mem_append, not_or]
  exact and_assoc.symm

lemma Settles.push {reqs : List BlockRequest} (hnodup : reqs.Nodup)
    (haw : ∀ b ∈ reqs, c.Awaits b) : Settles spoken c (pushCancels c reqs) :=
  .of_cancelled hnodup haw (fun b => (cancels_push c reqs b).1)
    (fun b => (cancels_push c reqs b).2) (awaits_push c reqs)

end ConnState

namespace Handler

variable {h h₁ h' : Handler}

/-- The requests `l` are given up with a `Cancel` each, and no other changes. -/
structure Drops (h : Handler) (l : List BlockRequest) (h' : Handler) : Prop where
  sent : Cancels h l h'
  awaits : ∀ b, h'.Awaits b ↔ h.Awaits b ∧ b ∉ l

namespace Drops

lemma sameRequests (hs : SameRequests h h') : Drops h [] h' := by
  refine ⟨.sameRequests hs, fun b => ?_⟩
  rw [ConnState.Awaits, ConnState.Awaits, hs.requests, hs.cancels]
  exact ⟨fun hb => ⟨hb, not_mem_nil⟩, And.left⟩

lemma trans {l l' : List BlockRequest} (hd : Drops h l h₁) (hd' : Drops h₁ l' h') :
    Drops h (l ++ l') h' := by
  refine ⟨hd.sent.trans hd'.sent, fun b => ?_⟩
  rw [hd'.awaits, hd.awaits, mem_append, not_or, and_assoc]

lemma expire (h : Handler) : Drops h h.stale h.expireStaleRequests := by
  have hex := expired h
  refine ⟨.expireStaleRequests h, fun b => ?_⟩
  rw [ConnState.Awaits, hex.keys, hex.cancels]
  exact ⟨fun hb => ⟨⟨hb.1.1, hb.2⟩, hb.1.2⟩, fun hb => ⟨⟨hb.1.1, hb.2⟩, hb.1.2⟩⟩

lemma drain (h : Handler) : Drops h [] h.drainDownloadCancels := by
  refine ⟨.drain h, fun b => ?_⟩
  rw [ConnState.Awaits, mem_drain_keys, (drain_pipeline h).2.2]
  exact ⟨fun hb => ⟨hb.1, not_mem_nil⟩, fun hb => ⟨hb.1, not_mem_nil⟩⟩

lemma settles {spoken : Prop} {l : List BlockRequest} (hd : Drops h l h') (hnodup : l.Nodup)
    (haw : ∀ b ∈ l, h.Awaits b) : ConnState.Settles spoken h.toConnState h'.toConnState :=
  .of_cancelled hnodup haw hd.sent.cancel hd.sent.request hd.awaits

end Drops

/-! ## Messages -/

lemma mem_onMessage_keys {m : PeerMessage} {b : BlockRequest}
    (hb : b ∈ (h.onMessage m).outstandingRequests.keys) : b ∈ h.outstandingRequests.keys := by
  have hsame := @SameRequests.onMessage h m
  cases m with
  | choke =>
    simp only [onMessage] at hb
    split at hb
    · exact hb
    · exact absurd hb not_mem_nil
  | rejectRequest req =>
    simp only [onMessage, onRejectRequest] at hb
    split at hb
    · exact hb
    · split at hb
      · rw [(SameRequests.refill _).requests] at hb
        exact ((mem_dropRequest h req b).1 hb).1
      · exact hb
  | piece index start data =>
    rw [onMessage, (onPiece_requests h index start data).2.2, mem_dropRequest] at hb
    exact hb.1
  | _ => rwa [(hsame (by simp) (by simp)).requests] at hb

lemma onReceivedMessage_settles {spoken : Prop} (hs : spoken) (h : Handler) (m : PeerMessage) :
    ConnState.Settles spoken h.toConnState (h.onReceivedMessage m).toConnState := by
  have hsent := Cancels.onReceivedMessage h m
  refine ⟨fun b hne => absurd (hsent.cancel b) hne, fun b => (hsent.request b).ge, fun b hb => ?_,
    fun _ _ _ => .inr hs⟩
  have hkeys := (mem_drain_keys _ b).1 (mem_onMessage_keys hb.1)
  refine .inl ?_
  cases m <;> exact hkeys

lemma onVerified_drops (h : Handler) (v : Verification) (ok banned : Bool) :
    Drops h [] (h.onVerified v ok banned) := by
  refine ⟨.onVerified h v ok banned, fun b => ?_⟩
  have hsame : (h.onVerified v ok banned).outstandingRequests = h.outstandingRequests ∧
      (h.onVerified v ok banned).downloadCancels = h.downloadCancels := by
    have hint := SameRequests.refreshInterest
    unfold onVerified
    simp only
    split
    · exact ⟨(hint _).requests, (hint _).cancels⟩
    · split
      · exact ⟨rfl, rfl⟩
      · exact ⟨(hint _).requests, (hint _).cancels⟩
  rw [ConnState.Awaits, hsame.1, hsame.2]
  exact ⟨fun hb => ⟨hb, not_mem_nil⟩, And.left⟩

/-! ## The requester -/

lemma nodup_stale (h : Handler) : h.stale.Nodup := h.outstandingRequests.keys_nodup.filter _

section

variable (htop : h.requester = .top → ∀ b ∈ h.unwanted, b ∈ h.downloadCancels)
include htop

/-- Requests are given up only by expiry. -/
lemma readied_drops (hr : Readied h h₁) : ∃ l, (l = [] ∨ l = h.stale) ∧ Drops h l h₁ := by
  induction hr with
  | same => exact ⟨[], .inl rfl, .sameRequests (.refl h)⟩
  | interest _ ih =>
    obtain ⟨l, hl, hd⟩ := ih
    refine ⟨l, hl, ?_⟩
    have hd' := hd.trans (.sameRequests (.refreshInterest _))
    rwa [append_nil] at hd'
  | upkeep ht =>
    have hd := ((Drops.sameRequests (.maybeSnub h)).trans (.expire _)).trans (.drain _)
    rw [stale_maybeSnub, nil_append, append_nil] at hd
    unfold upkeep
    rw [cancelUnwantedOutstanding, unwanted_drained (htop ht), foldl_nil]
    have hd' := hd.trans (.sameRequests (.refreshInterest _))
    rw [append_nil] at hd'
    exact ⟨_, .inr rfl, hd'⟩
  | await =>
    have hd := (Drops.expire h).trans (.sameRequests (.maybeSnub _))
    rw [append_nil] at hd
    exact ⟨_, .inr rfl, hd⟩

lemma moves_drops (hm : Moves h h') : ∃ l, (l = [] ∨ l = h.stale) ∧ Drops h l h' := by
  obtain @⟨h₁, t, r, hr, -⟩ := hm
  obtain ⟨l, hl, hd⟩ := readied_drops htop hr
  exact ⟨l, hl, ⟨hd.sent.request, hd.sent.cancel⟩, hd.awaits⟩

end

/-- What the code of a connection does to its requests: they are given up with a `Cancel`, or one is
sent. -/
inductive Handled (h h' : Handler) : Prop
  | drops (l : List BlockRequest) : l = [] ∨ l = h.stale → Drops h l h' → Handled h h'
  | sends (req : BlockRequest) : (∀ b, h'.cancels b = h.cancels b) →
    (∀ b, h'.requests b = h.requests b + if b = req then 1 else 0) →
    (∀ b, h.Awaits b → h'.Awaits b) → (∀ b, h'.Awaits b → h.Awaits b ∨ b = req) → Handled h h'

lemma Handled.settles {spoken : Prop} (hh : Handled h h')
    (hstale : ∀ b ∈ h.stale, b ∉ h.downloadCancels) :
    ConnState.Settles spoken h.toConnState h'.toConnState := by
  cases hh with
  | drops l hl hd =>
    rcases hl with rfl | rfl
    · exact hd.settles nodup_nil nofun
    · exact hd.settles (nodup_stale h) fun b hb => ⟨mem_of_mem_filter hb, hstale b hb⟩
  | sends req hc hr hkeep hnew =>
    refine ⟨fun b hne => absurd (hc b) hne, fun b => ?_, fun b hb => ?_,
      fun b hb hnot => absurd (hkeep b hb) hnot⟩
    · rw [hr]
      exact Nat.le_add_right ..
    · refine (hnew b hb).imp_right fun heq => ?_
      rw [hr, if_pos heq]
      exact Nat.lt_succ_self _

lemma request_handled {choice : Nat} (hm : h.TrackedRequest) (hr : h.request choice = some h') :
    Handled h h' := by
  obtain ⟨-, hm⟩ := hm
  cases request_cases hr with
  | moves _ hmoves =>
    obtain ⟨l, hl, hd⟩ := moves_drops (fun ht => by rwa [ht] at hm) hmoves
    exact .drops l hl hd
  | take => exact .drops [] (.inl rfl) ⟨.of_sent rfl, fun b => by simp [ConnState.Awaits]⟩
  | giveBack =>
    have hd := Drops.sameRequests (.refill h)
    exact .drops [] (.inl rfl) ⟨⟨hd.sent.request, hd.sent.cancel⟩, hd.awaits⟩
  | handOver loop req todo table hreq _ ha =>
    have hkeys : ∀ b, b ∈ (h.outstandingRequests.insert req h.now).keys ↔
      b = req ∨ b ∈ h.outstandingRequests.keys := fun _ => AList.mem_insert _
    refine .sends req (fun b => ?_) (fun b => ?_) (fun b hb => ⟨(hkeys b).2 (.inr hb.1), hb.2⟩)
      fun b hb => ((hkeys b).1 hb.1).symm.imp_left fun hk => ⟨hk, hb.2⟩
    · simp [ConnState.cancels, handOver, send, count_append]
    · rcases eq_or_ne b req with rfl | hne
      · simp [ConnState.requests, handOver, send]
      · simp [ConnState.requests, handOver, send, hne, hne.symm]

lemma timeout_handled (hr : h.timeout = some h') : Handled h h' := by
  cases timeout_cases hr with
  | snubbed since hreq hmoves =>
    obtain ⟨l, hl, hd⟩ := moves_drops (fun ht => nomatch hreq.symm.trans ht) hmoves
    exact .drops l hl hd
  | slot loop req todo since hreq hmoves =>
    have hup := Upkeep.halved h
    obtain ⟨l, hl, hd⟩ := moves_drops
      (fun ht => nomatch hreq.symm.trans (hup.requester.symm.trans ht)) hmoves
    rw [stale_expire, or_self] at hl
    subst hl
    have hd' := ((Drops.sameRequests (.setPipelineDepth h _)).trans (.expire _)).trans hd
    rw [nil_append, append_nil] at hd'
    refine .drops _ (.inr ?_) hd'
    exact stale_setPipelineDepth ..

end Handler

/-! ## Runs -/

namespace Download

variable {d d' : Download} {a : DownloadAct} {p : PeerAddr} {c c' : ConnState}
  {prios : List FilePriority}

def ExpiresOnce (d : Download) : DownloadAct → Prop
  | .request p _ => ∀ h ∈ d.live p, ∀ b ∈ h.stale, b ∉ h.downloadCancels
  | .timeout p => ∀ h ∈ d.live p, ∀ b ∈ h.stale, b ∉ h.downloadCancels
  | _ => True

instance (d : Download) : DecidablePred d.ExpiresOnce := by
  intro a
  rcases a <;> unfold ExpiresOnce <;> infer_instance

/-- What a priority change cancels has been requested from every peer that is connected. -/
def SkipsRequested (d : Download) : DownloadAct → Prop
  | .priorities prios => ∀ b ∈ (d.table.applyFilePriorities prios).2.map Prod.snd,
    ∀ q, (d.conns q).isSome → q ∈ d.table.requestersOf b
  | _ => True

/-- The assignments stay in step, and cancels are for what is outstanding and not cancelled. -/
structure Targeted (d : Download) (a : DownloadAct) : Prop where
  tracked : d.Tracked a
  expires : d.ExpiresOnce a
  skips : d.SkipsRequested a

lemma Aligned.skipped_awaits (hi : d.Aligned)
    (hok : d.Targeted (.priorities prios)) (hc : d.conns p = some c) {b : BlockRequest}
    (hb : b ∈ (d.table.applyFilePriorities prios).2.map Prod.snd) : c.Awaits b := by
  obtain ⟨cq, hcq, haw⟩ := (hi.listed p b).1 (hok.skips b hb p (by rw [hc]; rfl))
  cases hc.symm.trans hcq
  exact haw

lemma Aligned.awaits_skipped (hi : d.Aligned) (hc : d.conns p = some c) {b : BlockRequest}
    (haw : c.Awaits b) (hwant : d.table.wanted b.index)
    (hskip : (d.table.applyFilePriorities prios).1.wanted b.index = false)
    (hmiss : d.table.hasPiece b.index = false) :
    b ∈ (d.table.applyFilePriorities prios).2.map Prod.snd := by
  have hlisted : p ∈ d.table.requestersOf b := (hi.listed p b).2 ⟨c, hc, haw⟩
  by_contra hno
  have hgone : (d.table.applyFilePriorities prios).1.requestersOf b = [] := by
    refine applyFilePriorities_gone ?_ hskip
    simp only [TorrentDownloadedState.wanted, Bool.and_eq_true, decide_eq_true_eq] at hwant
    simpa [hasPiece, hwant.1] using hmiss
  rw [← (applyFilePriorities_unwanted d.table prios).kept b hno, hgone] at hlisted
  cases hlisted

lemma step_priorities (he : d.step (.priorities prios) = some d') :
    d'.table = (d.table.applyFilePriorities prios).1 ∧ ∀ q, d'.conns q =
      (d.conns q).map (pushCancels · (priorityCancels (d.table.applyFilePriorities prios).2)) := by
  cases he
  exact ⟨rfl, fun _ => rfl⟩

lemma Aligned.settles (hi : d.Aligned) (hok : d.Targeted a) (he : d.step a = some d')
    (hc : d.conns p = some c) (hc' : d'.conns p = some c') :
    ConnState.Settles (∃ m, a = .message p m) c c' := by
  have hsame : c' = c → ConnState.Settles (∃ m, a = .message p m) c c' := by
    rintro rfl
    exact ⟨fun b hne => absurd rfl hne, fun _ => le_rfl, fun _ h => .inl h,
      fun _ h hnot => absurd h hnot⟩
  cases conn_cases he hc' with
  | made _ _ hnone => cases hnone.symm.trans hc
  | kept hkept => exact hsame (Option.some.inj (hkept.symm.trans hc))
  | acts h h' hl hp ha heq =>
    subst hp heq
    cases hc.symm.trans (live_eq hl).2.1
    cases ha with
    | message m _ => exact Handler.onReceivedMessage_settles ⟨m, rfl⟩ h m
    | verified v ok _ => exact (Handler.onVerified_drops h v ok _).settles nodup_nil nofun
    | request hr => exact (Handler.request_handled (hok.tracked h hl) hr).settles (hok.expires h hl)
    | timeout hr => exact (Handler.timeout_handled hr).settles (hok.expires h hl)
  | pushed c₀ reqs h₀ heq hwhy =>
    cases hc.symm.trans h₀
    subst heq
    rcases hwhy with ⟨q, index, start, data, rfl, hlisted, rfl⟩ | ⟨prios, rfl, rfl⟩
    · refine .push (nodup_singleton _) fun b hb => ?_
      rw [mem_singleton.1 hb]
      rw [noteBlockReceived_snd, mem_filter] at hlisted
      obtain ⟨cq, hcq, haw⟩ := (hi.listed p _).1 hlisted.1
      cases hc.symm.trans hcq
      exact haw
    · refine .push (nodup_priorityCancels _) fun b hb => ?_
      exact hi.skipped_awaits hok hc (mem_priorityCancels.1 hb)

/-- A connection that was not there has been made. -/
lemma fresh_of_none (he : d.step a = some d') (hc : d.conns p = none) (hc' : d'.conns p = some c') :
    ∃ fast, a = .connect p fast ∧ c' = { fastExtension := fast, rateWindowStart := d.now } := by
  cases conn_cases he hc' with
  | made fast ha _ h => exact ⟨fast, ha, h⟩
  | kept h | pushed _ _ h => cases hc.symm.trans h
  | acts h h' hl hp =>
    subst hp
    cases hc.symm.trans (live_eq hl).2.1

/-- The assignments are in step, and no request is cancelled twice. -/
structure Fair (d : Download) : Prop where
  aligned : d.Aligned
  covered : ∀ p c, d.conns p = some c → c.Covered

lemma Fair.step (hf : d.Fair) (hok : d.Targeted a) (he : d.step a = some d') : d'.Fair := by
  refine ⟨hf.aligned.step hok.tracked he, fun p c' hc' => ?_⟩
  cases hc : d.conns p with
  | some c => exact (hf.covered p c hc).settles (hf.aligned.settles hok he hc hc')
  | none =>
    obtain ⟨fast, -, rfl⟩ := fresh_of_none he hc hc'
    intro b
    simp [ConnState.cancels, ConnState.requests, ConnState.Awaits]

/-- In a run of targeted steps from a torrent without connections, a step sends a peer a `Cancel`
only for a block that is outstanding at it and has not been cancelled, and one; no more are sent
than `Request`s; a request ends by its `Cancel` or by what the peer says; and a priority change
cancels every request that is outstanding for a piece it makes unwanted. -/
theorem cancels_exact {d₀ : Download} {as : List DownloadAct} (hconns : ∀ p, d₀.conns p = none)
    (hnone : d₀.table.blockAssignments = []) (hrun : Run step Targeted d₀ as d)
    (hok : d.Targeted a) (he : d.step a = some d') (hc : d.conns p = some c)
    (hc' : d'.conns p = some c') (b : BlockRequest) :
    (c'.cancels b ≠ c.cancels b → b ∈ c.outstandingRequests.keys ∧ b ∉ c.downloadCancels ∧
      c'.cancels b = c.cancels b + 1) ∧
    c'.cancels b ≤ c'.requests b ∧
    (c.Awaits b → ¬ c'.Awaits b → c'.cancels b = c.cancels b + 1 ∨ ∃ m, a = .message p m) ∧
    ∀ prios, a = .priorities prios → c.Awaits b → d.table.wanted b.index →
      d'.table.wanted b.index = false → d.table.hasPiece b.index = false →
      c'.cancels b = c.cancels b + 1 := by
  have hf : d.Fair := hrun.inv Fair.step ⟨.start hconns hnone, fun p c hc => by
    rw [hconns] at hc
    cases hc⟩
  have hs := hf.aligned.settles hok he hc hc'
  refine ⟨fun hne => ?_, (((hf.covered p c hc).settles hs) b).1, hs.ends b, ?_⟩
  · obtain ⟨haw, hone, -⟩ := hs.cancels b hne
    exact ⟨haw.1, haw.2, hone⟩
  · rintro prios rfl haw hwant hskip hmiss
    obtain ⟨htable, hpushed⟩ := step_priorities he
    rw [hpushed, hc] at hc'
    cases hc'
    rw [htable] at hskip
    have hb := hf.aligned.awaits_skipped hc haw hwant hskip hmiss
    have hone := count_eq_one_of_mem (nodup_priorityCancels _) (mem_priorityCancels.2 hb)
    rw [(ConnState.cancels_push ..).1, hone]

def twoFiles : Download :=
  { twoPieces with
    table := { twoPieces.table with pieceFiles := [[0], [1]], fileCount := 2 } }

def oneAsked : List DownloadAct := asked false 4

/-- The steps that do not change the priorities. -/
def keepsPriorities : DownloadAct → Bool
  | .priorities _ => false
  | _ => true

lemma oneAsked_runs : (exec step
    (fun d a => d.Tracked a ∧ d.ExpiresOnce a ∧ keepsPriorities a) twoFiles
    oneAsked).isSome := by
  decide +kernel

def afterOneAsked : Download := (exec step
  (fun d a => d.Tracked a ∧ d.ExpiresOnce a ∧ keepsPriorities a) twoFiles
  oneAsked).get oneAsked_runs

lemma conns_none {ok : Download → DownloadAct → Prop} {as : List DownloadAct}
    (hrun : Run step ok d as d') (hno : ∀ a ∈ as, ∀ fast, a ≠ .connect p fast)
    (hc : d.conns p = none) : d'.conns p = none := by
  induction hrun with
  | nil => exact hc
  | @cons d d₁ _ a as _ he _ ih =>
    refine ih (fun a ha => hno a (mem_cons_of_mem _ ha)) ?_
    cases hc₁ : d₁.conns p with
    | none => rfl
    | some c =>
      obtain ⟨fast, ha, -⟩ := fresh_of_none he hc hc₁
      exact absurd ha (hno a mem_cons_self fast)

lemma afterOneAsked_run : Run step Targeted twoFiles oneAsked afterOneAsked := by
  refine (Run.of_isSome oneAsked_runs).mono fun d a hok => ⟨hok.1, hok.2.1, ?_⟩
  cases a with
  | priorities prios => cases hok.2.2
  | _ => trivial

lemma afterOneAsked_targeted : afterOneAsked.Targeted (.priorities [.skip, .normal]) := by
  refine ⟨trivial, trivial, fun b hb q hq => ?_⟩
  have hpeer : q = localPeer 1 := by
    by_contra hne
    rw [conns_none afterOneAsked_run (fun a ha fast heq => ?_) rfl] at hq
    · cases hq
    · subst heq
      simp [oneAsked, asked, hne] at ha
  have hall : ∀ b ∈ (afterOneAsked.table.applyFilePriorities [.skip, .normal]).2.map Prod.snd,
      localPeer 1 ∈ afterOneAsked.table.requestersOf b := by decide +kernel
  exact hpeer ▸ hall b hb

/-- The file of a piece that is requested is skipped. -/
theorem cancels_exact_skipped :
    ∃ d' c c', afterOneAsked.step (.priorities [.skip, .normal]) = some d' ∧
      afterOneAsked.conns (localPeer 1) = some c ∧ d'.conns (localPeer 1) = some c' ∧
      c.Awaits ⟨0, 0, 2⟩ ∧ c'.cancels ⟨0, 0, 2⟩ = c.cancels ⟨0, 0, 2⟩ + 1 :=
  have he := eq_some_get
  have hc := eq_some_get
  have hc' := eq_some_get
  have haw := by unfold ConnState.Awaits; decide +kernel
  ⟨_, _, _, he, hc, hc', haw, (cancels_exact (fun _ => rfl) rfl afterOneAsked_run
    afterOneAsked_targeted he hc hc' ⟨0, 0, 2⟩).2.2.2 _ rfl haw (by decide +kernel)
    (by decide +kernel) (by decide +kernel)⟩

def otherConnected : List DownloadAct := oneAsked ++ [.connect (localPeer 2) false]

/-- Without the condition on priorities a peer is sent a `Cancel` for what another was asked for. -/
theorem cancels_exact_other :
    ∃ d, Run step Tracked twoFiles otherConnected d ∧
      (d.conns (localPeer 2)).map (fun c =>
        (c.requests ⟨0, 0, 2⟩, c.outstandingRequests.keys, c.cancels ⟨0, 0, 2⟩)) =
          some (0, [], 0) ∧
      (d.step (.priorities [.skip, .normal])).map (fun d =>
        (d.conns (localPeer 2)).map (·.cancels ⟨0, 0, 2⟩)) = some (some 1) :=
  ⟨_, .of_isSome, by decide +kernel, by decide +kernel⟩

end Download

end BitRev
