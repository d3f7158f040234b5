import BitRev.Peer.Upload

/-!
# Every request is answered once

On a connection with the fast extension, a request that is owed an answer waits in the queue, or
is in the hand of the uploader, or has been answered by one `Piece` or `RejectRequest`
(`Uploads.Settled`). A request leaves the queue with an answer wherever the code takes it out, with
one exception: a `Cancel` removes it silently. So this holds in every run that meets `Uploads.Kept`:
`run_settled`.
-/

namespace BitRev

open List

namespace Uploads

/-- A connection with the fast extension, before its first message. -/
def new (ourAllowedFast : List Nat) (table : TorrentDownloadedState) (store : Store)
    (contents : Contents) (isDownloading : Bool) : Uploads :=
  { fastExtension := true, ourAllowedFast, table, storage := .new store contents, isDownloading }

/-- A `Cancel` comes only for requests that are no longer queued. -/
def Kept (s : Uploads) : UploadAct → Prop
  | .cancel payload => ∀ req ∈ BlockRequest.fromPayload payload, req ∉ s.uploadQueue
  | _ => True

instance (s : Uploads) : DecidablePred s.Kept := by
  intro a
  rcases a <;> unfold Kept <;> infer_instance

/-- Each request owed an answer waits, or is in the hand of the uploader, or was answered once, and
a `Piece` has the bytes of a read for its request. -/
structure Settled (s : Uploads) : Prop where
  answered : ∀ req, s.received.count req =
    s.uploadQueue.count req + s.uploader.hand.count req + s.answers.count req
  pieces : ∀ index start data, .piece index start data ∈ s.sent →
    ⟨index, start, data.length⟩ ∈ s.received ∧
      ∃ n t, s.storage.calls n =
        some (.readBlock index start data.length, .returned t (.ok data))
  bounded : s.uploadQueue.length ≤ maxUploadQueue

/-! ## The invariant -/

/-- A call of the storage has read `data` for the request. -/
def ReadFor (s : Uploads) (req : BlockRequest) (data : Bytes) : Prop :=
  ∃ n t, s.storage.calls n =
    some (.readBlock req.index req.start req.length, .returned t (.ok data))

/-- What the uploader waits for belongs to the request in its hand. -/
def Serves (s : Uploads) : UploaderState → Prop
  | .reading req call =>
    ∃ st, s.storage.calls call = some (.readBlock req.index req.start req.length, st)
  | .limited req data => s.ReadFor req data
  | _ => True

/-- `Settled` in a step that has taken `owed` from one place and not yet put it in another. -/
structure Inv (owed : List BlockRequest) (s : Uploads) : Prop where
  fast : s.fastExtension
  exact : s.storage.Exact
  answered : ∀ req, s.received.count req =
    s.uploadQueue.count req + s.uploader.hand.count req + s.answers.count req + owed.count req
  pieces : ∀ index start data, .piece index start data ∈ s.sent →
    ⟨index, start, data.length⟩ ∈ s.received ∧ s.ReadFor ⟨index, start, data.length⟩ data
  bounded : s.uploadQueue.length ≤ maxUploadQueue
  serves : s.Serves s.uploader

variable {s s' : Uploads} {owed : List BlockRequest} {req : BlockRequest}

lemma Inv.settled (hi : s.Inv []) : s.Settled :=
  ⟨hi.answered, hi.pieces, hi.bounded⟩

/-! ## Moving requests -/

/-- A request comes in, and an answer is owed. -/
lemma Inv.receive (hi : s.Inv []) (req : BlockRequest) :
    Inv [req] { s with received := s.received ++ [req] } where
  __ := hi
  answered r := by
    have hr := hi.answered r
    simp only [count_append, count_nil, answers] at hr ⊢
    omega
  pieces index start data hp := by
    obtain ⟨hmem, hread⟩ := hi.pieces index start data hp
    exact ⟨mem_append_left _ hmem, hread⟩

lemma sendReject_uploader (s : Uploads) (req : BlockRequest) (u : UploaderState) :
    { s.sendReject req with uploader := u } = sendReject { s with uploader := u } req := by
  unfold sendReject
  split <;> rfl

/-- A `RejectRequest` is an answer. -/
lemma Inv.sendReject (hi : s.Inv [req]) : (s.sendReject req).Inv [] := by
  rw [Uploads.sendReject, if_pos hi.fast]
  refine ⟨hi.fast, hi.exact, fun r => ?_, fun index start data hp => ?_, hi.bounded, hi.serves⟩
  · have hr := hi.answered r
    simp only [answers, filterMap_append, filterMap_cons, Outgoing.answer,
      filterMap_nil, count_append, count_nil] at hr ⊢
    omega
  · exact hi.pieces index start data (by simpa using hp)

lemma Inv.push (hi : s.Inv [req]) (hlen : s.uploadQueue.length < maxUploadQueue) :
    Inv [] { s with uploadQueue := s.uploadQueue ++ [req] } where
  __ := hi
  answered r := by
    have hr := hi.answered r
    simp only [count_append, count_nil, answers] at hr ⊢
    omega
  bounded := by
    rw [length_append]
    exact hlen

lemma Inv.pop_front (hi : s.Inv []) {queue : List BlockRequest}
    (hq : s.uploadQueue = req :: queue) : Inv [req] { s with uploadQueue := queue } where
  __ := hi
  answered r := by
    have hr := hi.answered r
    rw [hq, count_cons] at hr
    simp only [count_cons, count_nil, answers] at hr ⊢
    omega
  bounded := by
    have hb := hi.bounded
    rw [hq, length_cons] at hb
    exact Nat.le_of_succ_le hb

/-- The uploader takes a request that is owed an answer, or none. -/
lemma Inv.take {u : UploaderState} (hi : s.Inv (u.hand ++ owed)) (hno : s.uploader.hand = [])
    (hs : s.Serves u) : Inv owed { s with uploader := u } where
  __ := hi
  answered r := by
    have hr := hi.answered r
    simp only [hno, count_nil, count_append, answers] at hr ⊢
    omega
  serves := hs

/-- The uploader gives up what it has in hand. -/
lemma Inv.put (hi : s.Inv []) : Inv s.uploader.hand { s with uploader := .inner } where
  __ := hi
  answered r := by
    have hr := hi.answered r
    simp only [UploaderState.hand, count_nil, answers] at hr ⊢
    omega
  serves := trivial

/-- A `Piece` is an answer, with the bytes that were read. -/
lemma Inv.sendPiece (hi : s.Inv [req]) {data : Bytes} (hd : s.ReadFor req data) (n : Nat) :
    Inv [] { s with sent := s.sent ++ [.piece req.index req.start data], uploaded := n } := by
  obtain ⟨call, t, hcall⟩ := hd
  have hlen : data.length = req.length := hi.exact.returned _ _ _ _ _ _ hcall
  have hreq : (⟨req.index, req.start, data.length⟩ : BlockRequest) = req := by rw [hlen]
  refine ⟨hi.fast, hi.exact, fun r => ?_, fun index start d hp => ?_, hi.bounded, hi.serves⟩
  · have hr := hi.answered r
    simp only [answers, filterMap_append, filterMap_cons, Outgoing.answer, hreq,
      filterMap_nil, count_append, count_nil] at hr ⊢
    omega
  · rcases mem_append.1 hp with hp | hp
    · exact hi.pieces index start d hp
    · cases mem_singleton.1 hp
      have hr := hi.answered req
      rw [count_singleton_self] at hr
      have hpos : 0 < s.received.count req := by omega
      rw [hreq]
      exact ⟨count_pos_iff.1 hpos, call, t, hcall⟩

/-- Whatever leaves the queue is rejected. -/
lemma Inv.rejectUploadQueue (hi : s.Inv owed) (keepAllowedFast : Bool) :
    (s.rejectUploadQueue keepAllowedFast).Inv owed := by
  rw [Uploads.rejectUploadQueue, if_neg (by simp [hi.fast])]
  refine ⟨hi.fast, hi.exact, fun r => ?_, fun index start data hp => ?_, ?_, hi.serves⟩
  · have hr := hi.answered r
    have hperm := (filter_append_perm
      (fun q => keepAllowedFast && s.ourAllowedFast.contains q.index) s.uploadQueue).count_eq r
    have hsame : ∀ l : List BlockRequest, (l.map Outgoing.reject).filterMap Outgoing.answer = l := by
      intro l
      rw [filterMap_map]
      exact filterMap_some
    rw [count_append] at hperm
    simp only [answers, filterMap_append, hsame, count_append] at hr ⊢
    omega
  · exact hi.pieces index start data (by simpa using hp)
  · exact (length_filter_le _ _).trans hi.bounded

/-! ## The steps -/

lemma Inv.onValidRequest (hi : s.Inv [req]) : (s.onValidRequest req).Inv [] := by
  unfold Uploads.onValidRequest
  split
  · exact hi.sendReject
  split
  · have hs := hi.sendReject
    simp only
    split
    · exact { hs with }
    · exact { hs with }
  · have hs : Inv [req] { s with chokedRequests := 0, notified := true } :=
      { hi with }
    simp only
    split
    · exact hs.sendReject
    · rename_i hlen
      exact hs.push (Nat.lt_of_not_le hlen)

section

variable (hi : s.Inv [])
include hi

lemma Inv.fail (e : IncomingError) : (s.fail e).Inv [] :=
  { hi with }

lemma Inv.onIncomingRequest (payload : Bytes) : (s.onIncomingRequest payload).Inv [] := by
  unfold Uploads.onIncomingRequest
  split
  · exact hi.fail _
  rename_i req hreq
  have hrec := hi.receive req
  cases hlen : s.table.pieceLength req.index with
  | none =>
    simp only [TorrentDownloadedState.owes, hlen]
    exact hi.fail _
  | some pieceLength =>
    rcases hval : validateRequest req pieceLength (s.table.hasPiece req.index) with e | u
    · by_cases he : e = .missingPiece
      · simp only [TorrentDownloadedState.owes, hlen, hval, he, decide_true, if_true, true_and]
        rw [if_pos hi.fast]
        exact hrec.sendReject
      · simp only [TorrentDownloadedState.owes, hlen, hval, he, false_and, decide_false, if_false]
        exact hi.fail _
    · simp only [TorrentDownloadedState.owes, hlen, hval, if_true]
      exact hrec.onValidRequest

/-- The one operation that drops requests finds none. -/
lemma Inv.onCancel {payload : Bytes} (hok : s.Kept (.cancel payload)) :
    (s.onCancel payload).Inv [] := by
  unfold Uploads.onCancel
  split
  · exact hi
  · rename_i req hreq
    have hsame : s.uploadQueue.filter (· ≠ req) = s.uploadQueue := by
      refine filter_eq_self.2 fun r hr => ?_
      have hne : r ≠ req := fun he => hok req hreq (he ▸ hr)
      simpa using hne
    rw [hsame]
    exact hi

lemma Inv.setAmChoking (choking : Bool) : (s.setAmChoking choking).Inv [] := by
  have hno : Outgoing.answer (if choking then .choke else .unchoke) = none := by
    cases choking <;> rfl
  refine ⟨hi.fast, hi.exact, fun r => ?_, fun index start data hp => ?_, hi.bounded, hi.serves⟩
  · have hr := hi.answered r
    simp only [Uploads.setAmChoking, answers, filterMap_append, filterMap_cons, hno,
      filterMap_nil, append_nil] at hr ⊢
    exact hr
  · refine hi.pieces index start data ((mem_append.1 hp).resolve_right fun hq => ?_)
    cases choking <;> cases mem_singleton.1 hq

lemma Inv.serve (hu : s.uploader = .inner) : s.serve.Inv [] := by
  have hno : s.uploader.hand = [] := by rw [hu]; rfl
  have hsame : ∀ b, (s.rejectUploadQueue b).uploader = s.uploader := by
    intro b
    unfold Uploads.rejectUploadQueue
    split <;> rfl
  unfold Uploads.serve
  split
  · exact (hi.rejectUploadQueue false).take (u := .outer) (by rw [hsame, hno]) trivial
  split
  · simp only
    split
    · exact (hi.rejectUploadQueue true).take (u := .outer) (by rw [hsame, hno]) trivial
    · exact (hi.rejectUploadQueue true).take (u := .popping) (by rw [hsame, hno]) trivial
  · exact hi.take (u := .popping) hno trivial

end

/-- The other calls of the storage leave alone what was read. -/
lemma Inv.storage (hi : s.Inv owed) {a : SharedAct} {storage : Shared}
    (h : s.storage.step a = some storage) : Inv owed { s with storage } := by
  have hread : ∀ req data, s.ReadFor req data → ReadFor { s with storage } req data := by
    rintro req data ⟨n, t, hn⟩
    obtain ⟨st, hst, hkept⟩ := hi.exact.kept h hn
    rw [hkept t _ rfl] at hst
    exact ⟨n, t, hst⟩
  refine ⟨hi.fast, hi.exact.step h, hi.answered, fun index start data hp => ?_, hi.bounded, ?_⟩
  · obtain ⟨hmem, hp⟩ := hi.pieces index start data hp
    exact ⟨hmem, hread _ _ hp⟩
  · have hs := hi.serves
    cases hu : s.uploader with
    | reading req call =>
      rw [hu] at hs
      obtain ⟨st, hst⟩ := hs
      obtain ⟨st', hst', -⟩ := hi.exact.kept h hst
      exact ⟨st', hst'⟩
    | limited req data =>
      rw [hu] at hs
      exact hread req data hs
    | outer | waiting | inner | popping => trivial

lemma Inv.pop (hi : s.Inv []) (hu : s.uploader = .popping) (h : s.pop = some s') : s'.Inv [] := by
  have hno : s.uploader.hand = [] := by rw [hu]; rfl
  unfold Uploads.pop at h
  split at h
  · cases h
    exact hi.take (u := .outer) hno trivial
  · rename_i req queue hq
    have hp := hi.pop_front hq
    simp only at h
    split at h
    · cases h
      rw [sendReject_uploader]
      exact (hp.take (u := .inner) hno trivial).sendReject
    · rw [Option.map_eq_some_iff] at h
      obtain ⟨storage, hstart, rfl⟩ := h
      exact (hp.storage hstart).take (u := .reading req _) hno (Shared.step_start hstart)

lemma Inv.upload (hi : s.Inv []) (h : s.upload = some s') : s'.Inv [] := by
  unfold Uploads.upload at h
  have hserves := hi.serves
  split at h
  · rename_i hu
    cases h
    split
    · exact hi.take (u := .waiting) (by rw [hu]; rfl) trivial
    · exact hi.rejectUploadQueue false
  · rename_i hu
    split_ifs at h
    cases h
    have hs := hi.take (u := .inner) (by rw [hu]; rfl) trivial
    exact { hs with }
  · rename_i hu
    cases h
    exact hi.serve hu
  · rename_i hu
    exact hi.pop hu h
  · rename_i req call hu
    have hput := hi.put
    rw [hu] at hserves hput
    obtain ⟨st, hst⟩ := hserves
    split at h
    · rename_i c t r hcall
      cases h
      cases hcall.symm.trans hst
      cases r with
      | ok data => exact hput.take (u := .limited req data) rfl ⟨call, t, hcall⟩
      | error e =>
        simp only [onRead, sendReject_uploader]
        exact hput.sendReject
    · cases h
  · rename_i req data hu
    have hput := hi.put
    rw [hu] at hserves hput
    cases h
    unfold Uploads.sendPiece
    split
    · rw [sendReject_uploader]
      exact hput.sendReject
    · exact hput.sendPiece hserves _

lemma Inv.step {a : UploadAct} (hi : s.Inv []) (hok : s.Kept a) (h : s.step a = some s') :
    s'.Inv [] := by
  unfold Uploads.step at h
  split_ifs at h
  cases a with
  | request payload => cases h; exact hi.onIncomingRequest payload
  | cancel payload => cases h; exact hi.onCancel hok
  | interested =>
    cases h
    unfold Uploads.onInterested
    have hs : Inv [] { s with peerInterested := true } := { hi with }
    simp only
    split
    · exact hs.setAmChoking false
    · exact hs
  | notInterested | pause | resume | table t => cases h; exact { hi with }
  | choke choking => cases h; exact hi.setAmChoking choking
  | storage a =>
    simp only [Option.map_eq_some_iff] at h
    obtain ⟨storage, hstep, rfl⟩ := h
    exact hi.storage hstep
  | upload => exact hi.upload h

lemma new_inv {ourAllowedFast : List Nat} {table : TorrentDownloadedState} {store : Store}
    {contents : Contents} {isDownloading : Bool} (h : store.Laid) :
    (new ourAllowedFast table store contents isDownloading).Inv [] :=
  ⟨rfl, .new h contents, fun _ => rfl, nofun, Nat.zero_le _, trivial⟩

/-- In a run in which no `Cancel` comes for a queued request, every request that is owed an answer
is queued, or being read, or has been answered once. -/
theorem run_settled {ourAllowedFast : List Nat} {table : TorrentDownloadedState} {store : Store}
    {contents : Contents} {isDownloading : Bool} {as : List UploadAct} (hlaid : store.Laid)
    (h : Run step Kept (new ourAllowedFast table store contents isDownloading) as s) :
    s.Settled :=
  (h.inv (fun hi hok he => hi.step hok he) (new_inv hlaid)).settled

/-- The first of two pieces is there. -/
def firstOfTwo : Uploads :=
  new [] (.new [{ pieceWork := ⟨0, 2, 0⟩, downloaded := true }, { pieceWork := ⟨1, 1, 0⟩ }])
    (.openWith Store.twoFiles [0, 1] 0) (fun _ => [7, 8]) true

/-- A block of the first piece and one of the second are requested; the file of the first is read
and the uploader waits for the limiter. -/
def twoRequests : List UploadAct :=
  [.choke false, .request (toBe 4 0 ++ toBe 4 0 ++ toBe 4 2),
    .request (toBe 4 1 ++ toBe 4 0 ++ toBe 4 1), .upload, .upload, .upload, .upload,
    .storage (.io 0 (.transfer 1)), .storage (.io 0 (.transfer 1)), .storage (.resume 0), .upload,
    .upload]

theorem run_settled_two :
    ∃ s, Run step Kept firstOfTwo twoRequests s ∧
      s.sent = [.unchoke, .reject ⟨1, 0, 1⟩, .piece 0 0 [7, 7]] ∧ s.Settled :=
  have hrun := Run.of_isSome
  ⟨_, hrun, by decide +kernel, run_settled ⟨Store.twoFiles_wellFormed, rfl, by decide⟩ hrun⟩

def cancelled : List UploadAct :=
  [.choke false, .request (toBe 4 0 ++ toBe 4 0 ++ toBe 4 2),
    .cancel (toBe 4 0 ++ toBe 4 0 ++ toBe 4 2)]

/-- Without the condition a request is neither queued nor answered: it has been cancelled. -/
theorem run_settled_cancelled :
    ¬ ∀ (ourAllowedFast : List Nat) (table : TorrentDownloadedState) (store : Store)
      (contents : Contents) (isDownloading : Bool) (as : List UploadAct) (s : Uploads), store.Laid →
      Run step anyStep (new ourAllowedFast table store contents isDownloading) as s →
      s.Settled := by
  intro h
  have hrun : Run step anyStep firstOfTwo cancelled _ := .of_isSome
  have hsettled := h _ _ _ _ _ _ _ ⟨Store.twoFiles_wellFormed, rfl, by decide⟩ hrun
  exact absurd (hsettled.answered ⟨0, 0, 2⟩) (by decide +kernel)

end Uploads

end BitRev
