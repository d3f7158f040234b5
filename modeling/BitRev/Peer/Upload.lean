import BitRev.Storage.Lengths

/-!
# Serving blocks

The upload side of a connection (`peer_connection.rs`). The message handler checks each `Request`
and queues it or rejects it (`onIncomingRequest`); the uploader task takes the requests from the
queue, reads their blocks and hands them to the peer writer. Between its awaits the uploader is in
one of the states of `UploaderState`, and each of its steps goes from one await to the next or,
where it reads a flag that others set, to the next reading.

The storage is shared with all other tasks (`Shared`); a read of the uploader is one of the calls
on it. `Uploads.sent` is what has been handed to the writer and `Uploads.received` the requests
that are owed an answer.
-/

namespace BitRev

/-! ## Requests -/

def maxIncomingRequestLength : Nat := 128 * 1024
def maxUploadQueue : Nat := 8
def maxChokedRequests : Nat := 8

inductive RequestError where
  | missingPiece
  | invalidLength
  | outOfBounds
  deriving DecidableEq

def BlockRequest.fromPayload (payload : Bytes) : Option BlockRequest :=
  if payload.length < 12 then none
  else
    some ⟨beToNat (payload.take 4), beToNat ((payload.drop 4).take 4),
      beToNat ((payload.drop 8).take 4)⟩

def validateRequest (req : BlockRequest) (pieceLength : Nat) (havePiece : Bool) :
    Except RequestError Unit :=
  if !havePiece then .error .missingPiece
  else if req.length = 0 ∨ req.length > maxIncomingRequestLength then .error .invalidLength
  else if req.start + req.length < 2 ^ 32 ∧ req.start + req.length ≤ pieceLength then .ok ()
  else .error .outOfBounds

def TorrentDownloadedState.pieceLength (t : TorrentDownloadedState) (index : Nat) : Option Nat :=
  t.pieces[index]?.map (·.pieceWork.length)

/-- The request passes `validate_request` or names a known piece that we lack. -/
def TorrentDownloadedState.owes (t : TorrentDownloadedState) (req : BlockRequest) : Bool :=
  match t.pieceLength req.index with
  | none => false
  | some pieceLength =>
    match validateRequest req pieceLength (t.hasPiece req.index) with
    | .ok () => true
    | .error e => e = .missingPiece

/-- What `on_received_message` fails with on a `Request`. -/
inductive IncomingError where
  | truncatedRequest
  | unknownPiece (index : Nat)
  | invalidRequest (req : BlockRequest) (e : RequestError)
  | requestStorm

/-! ## The connection -/

/-- A message handed to the peer writer. -/
inductive Outgoing where
  | piece (index start : Nat) (data : Bytes)
  | reject (req : BlockRequest)
  | choke
  | unchoke
  deriving DecidableEq

def Outgoing.answer : Outgoing → Option BlockRequest
  | .piece index start data => some ⟨index, start, data.length⟩
  | .reject req => some req
  | .choke => none
  | .unchoke => none

inductive UploaderState where
  /-- At the head of the outer loop. -/
  | outer
  /-- Awaiting `upload_notify`. -/
  | waiting
  /-- At the head of the inner loop. -/
  | inner
  /-- About to take a request from the queue. -/
  | popping
  /-- Awaiting `read_block`, which is this call on the storage. -/
  | reading (req : BlockRequest) (call : Nat)
  /-- Awaiting the upload limiter, with the block read. -/
  | limited (req : BlockRequest) (data : Bytes)

def UploaderState.hand : UploaderState → List BlockRequest
  | .reading req _ => [req]
  | .limited req _ => [req]
  | _ => []

structure Uploads where
  fastExtension : Bool
  ourAllowedFast : List Nat
  table : TorrentDownloadedState
  storage : Shared
  isDownloading : Bool
  amChoking : Bool := true
  peerInterested : Bool := false
  /-- The permit of `upload_notify`. -/
  notified : Bool := false
  uploadQueue : List BlockRequest := []
  chokedRequests : Nat := 0
  uploader : UploaderState := .outer
  uploaded : Nat := 0
  sent : List Outgoing := []
  received : List BlockRequest := []
  error : Option IncomingError := none

inductive UploadAct where
  | request (payload : Bytes)
  | cancel (payload : Bytes)
  | interested
  | notInterested
  /-- The choke algorithm, or `choke_all_peers`, chokes the peer or unchokes it. -/
  | choke (choking : Bool)
  | pause
  | resume
  /-- The pieces we have change, or the file priorities. -/
  | table (t : TorrentDownloadedState)
  /-- A step of any call on the storage. -/
  | storage (a : SharedAct)
  | upload

namespace Uploads

variable (s : Uploads)

def answers : List BlockRequest := s.sent.filterMap Outgoing.answer

def sendReject (req : BlockRequest) : Uploads :=
  if s.fastExtension then { s with sent := s.sent ++ [.reject req] } else s

def rejectUploadQueue (keepAllowedFast : Bool) : Uploads :=
  if !s.fastExtension then { s with uploadQueue := [] }
  else
    let keep req := keepAllowedFast && s.ourAllowedFast.contains req.index
    { s with
      uploadQueue := s.uploadQueue.filter keep
      sent := s.sent ++ (s.uploadQueue.filter (!keep ·)).map .reject }

def fail (e : IncomingError) : Uploads := { s with error := some e }

def onValidRequest (req : BlockRequest) : Uploads :=
  if !s.isDownloading then s.sendReject req
  else if s.amChoking && !(s.fastExtension && s.ourAllowedFast.contains req.index) then
    let chokedRequests := satAddU32 s.chokedRequests 1
    let s := { s.sendReject req with chokedRequests }
    if chokedRequests > maxChokedRequests then s.fail .requestStorm else s
  else
    let s := { s with chokedRequests := 0, notified := true }
    if s.uploadQueue.length ≥ maxUploadQueue then s.sendReject req
    else { s with uploadQueue := s.uploadQueue ++ [req] }

def onIncomingRequest (payload : Bytes) : Uploads :=
  match BlockRequest.fromPayload payload with
  | none => s.fail .truncatedRequest
  | some req =>
    let s := { s with received := if s.table.owes req then s.received ++ [req] else s.received }
    match s.table.pieceLength req.index with
    | none => s.fail (.unknownPiece req.index)
    | some pieceLength =>
      match validateRequest req pieceLength (s.table.hasPiece req.index) with
      | .ok () => s.onValidRequest req
      | .error e =>
        if e = .missingPiece ∧ s.fastExtension then s.sendReject req
        else s.fail (.invalidRequest req e)

def onCancel (payload : Bytes) : Uploads :=
  match BlockRequest.fromPayload payload with
  | none => s
  | some req => { s with uploadQueue := s.uploadQueue.filter (· ≠ req) }

def setAmChoking (choking : Bool) : Uploads :=
  { s with
    amChoking := choking
    sent := s.sent ++ [if choking then .choke else .unchoke]
    notified := true }

def onInterested : Uploads :=
  let s := { s with peerInterested := true }
  if s.table.isComplete && s.amChoking then s.setAmChoking false else s

/-- One turn of the inner loop, up to where it takes a request. -/
def serve : Uploads :=
  if !s.isDownloading then { s.rejectUploadQueue false with uploader := .outer }
  else if s.amChoking then
    let s := s.rejectUploadQueue true
    { s with uploader := if s.uploadQueue = [] then .outer else .popping }
  else { s with uploader := .popping }

/-- `none` where `read_block` panics. -/
def pop : Option Uploads :=
  match s.uploadQueue with
  | [] => some { s with uploader := .outer }
  | req :: queue =>
    let s := { s with uploadQueue := queue }
    if s.amChoking && !s.ourAllowedFast.contains req.index then
      some { s.sendReject req with uploader := .inner }
    else
      (s.storage.step (.start (.readBlock req.index req.start req.length))).map fun storage =>
        { s with storage, uploader := .reading req s.storage.now }

def onRead (req : BlockRequest) : Except StorageError Bytes → Uploads
  | .ok data => { s with uploader := .limited req data }
  | .error _ => { s.sendReject req with uploader := .inner }

def sendPiece (req : BlockRequest) (data : Bytes) : Uploads :=
  if !s.isDownloading then { s.sendReject req with uploader := .inner }
  else
    { s with
      sent := s.sent ++ [.piece req.index req.start data]
      uploaded := s.uploaded + data.length
      uploader := .inner }

/-- One step of `task_peer_uploader`, if it need not wait. -/
def upload : Option Uploads :=
  match s.uploader with
  | .outer =>
    some (if s.isDownloading then { s with uploader := .waiting } else s.rejectUploadQueue false)
  | .waiting => if s.notified then some { s with notified := false, uploader := .inner } else none
  | .inner => some s.serve
  | .popping => s.pop
  | .reading req call =>
    match s.storage.calls call with
    | some (_, .returned _ r) => some (s.onRead req r)
    | _ => none
  | .limited req data => some (s.sendPiece req data)

/-- The connection goes on while its handler does not fail. -/
def step (a : UploadAct) : Option Uploads :=
  if s.error.isSome then none
  else
    match a with
    | .request payload => some (s.onIncomingRequest payload)
    | .cancel payload => some (s.onCancel payload)
    | .interested => some s.onInterested
    | .notInterested => some { s with peerInterested := false }
    | .choke choking => some (s.setAmChoking choking)
    | .pause => some { s with isDownloading := false }
    | .resume => some { s with isDownloading := true }
    | .table t => some { s with table := t }
    | .storage a => (s.storage.step a).map fun storage => { s with storage }
    | .upload => s.upload

end Uploads

end BitRev
