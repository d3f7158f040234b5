import BitRev.Framework.Assoc
import BitRev.Pieces.Pipeline
import BitRev.Pieces.Requests

/-!
# Requesting blocks

The download side of the connections of a torrent (`peer_connection.rs`). Each connection has a
message handler (`onReceivedMessage`) and a requester task (`task_peer_chunk_requester`) that share
its state (`ConnState`): the requests sent and not yet answered, and the pipeline, a semaphore from which
the requester takes a slot for every request. All connections share the piece table.

`Handler` is what the code of one connection sees: its own state, the table, the clock and whether
the torrent is downloading. `Requester` says at which await the requester is; a step of it goes to
the next await. `Download` is the torrent with all its connections, and `Download.step` one step of
one of them, or of the tasks around them.

Times are in milliseconds.
-/

namespace BitRev

open TorrentDownloadedState

def snubTimeout : Nat := 60000
def requestTimeout : Nat := 20000
def initialPipeline : Nat := 5
def maxPipelineDepth : Nat := 250
def hashFailureBanThreshold : Nat := 3

/-- What `on_received_message` fails with. -/
inductive ConnError where
  /-- "fast extension message without negotiation" -/
  | notNegotiated
  /-- "reject for request that was never sent" -/
  | rejectNeverSent
  /-- "banned after hash failure" -/
  | bannedAfterHashFailure

/-- A message handed to the peer writer. -/
inductive WireMessage where
  | request (req : BlockRequest)
  | cancel (req : BlockRequest)
  | interested
  | notInterested
  deriving DecidableEq

inductive RequestLoop where
  | piece (index : Nat)
  | endgame
  deriving DecidableEq

inductive Requester where
  /-- At the head of its loop, or at an await that leads there. -/
  | top
  /-- Awaiting 200 ms while snubbed. -/
  | snubWait (since : Nat)
  /-- At the next turn of `request_piece_blocks` or `request_endgame_blocks`. -/
  | blocks (loop : RequestLoop) (todo : List BlockRequest)
  /-- Awaiting a pipeline slot in `acquire_pipeline_slot`. -/
  | slot (loop : RequestLoop) (req : BlockRequest) (todo : List BlockRequest) (since : Nat)
  /-- Awaiting the download limiter, with a slot. -/
  | limited (loop : RequestLoop) (req : BlockRequest) (todo : List BlockRequest)
  deriving DecidableEq

def Requester.pending : Requester → List BlockRequest
  | .top => []
  | .snubWait _ => []
  | .blocks _ todo => todo
  | .slot _ req todo _ => req :: todo
  | .limited _ req todo => req :: todo

/-- The slots acquired and not yet used. -/
def Requester.held : Requester → Nat
  | .limited _ _ _ => 1
  | _ => 0

structure ConnState where
  fastExtension : Bool
  chocked : Bool := true
  bitfield : List Bool := []
  peerAllowedFast : List Nat := []
  /-- Each request with the time it was sent at. -/
  outstandingRequests : AList fun _ : BlockRequest => Nat := ∅
  requestsSem : Nat := 0
  pipelineDepth : Nat := initialPipeline
  pipelineArmed : Bool := false
  pipelineDebt : Nat := 0
  peerReqq : Nat := maxPipelineDepth
  snubbed : Bool := false
  lastBlockAt : Option Nat := none
  firstRequestAt : Option Nat := none
  interestedSince : Option Nat := none
  amInterested : Bool := false
  rateWindowStart : Nat
  rateWindowBytes : Nat := 0
  lastRate : Nat := 0
  downloadCancels : List BlockRequest := []
  requester : Requester := .top
  /-- The piece whose hash the message handler awaits. -/
  verifying : Option Verification := none
  /-- Set when the message handler has failed; the connection is then closed. -/
  error : Option ConnError := none
  sent : List WireMessage := []
  /-- The requests the peer has not answered. -/
  unanswered : List BlockRequest := []
  /-- The largest depth the pipeline has had. -/
  largestDepth : Nat := initialPipeline

/-- What the code of a connection sees. -/
structure Handler extends ConnState where
  peer : PeerAddr
  table : TorrentDownloadedState
  isDownloading : Bool
  now : Nat

/-- The messages of a peer that concern the download. -/
inductive PeerMessage where
  | choke
  | unchoke
  | allowedFast (index : Nat)
  /-- The peer's bitfield becomes `bits`: by `Have` or `Bitfield`, or with the fast extension by
  `HaveAll` or `HaveNone`. -/
  | bitfield (bits : List Bool) (needsFast : Bool)
  | rejectRequest (req : BlockRequest)
  | piece (index start : Nat) (data : Bytes)
  /-- An extension handshake with this `reqq`. -/
  | reqq (n : Nat)
  deriving DecidableEq

/-- The request a `Piece` message answers. -/
def pieceRequest (index start : Nat) (data : Bytes) : BlockRequest :=
  ⟨index, start, data.length % 2 ^ 32⟩

namespace Handler

variable (h : Handler)

def send (m : WireMessage) : Handler := { h with sent := h.sent ++ [m] }

def fail (e : ConnError) : Handler := { h with error := some e }

def hasBit (i : Nat) : Bool := h.bitfield[i]?.getD false

/-! ## The pipeline -/

def maxPipeline : Nat := max 1 (min h.peerReqq maxPipelineDepth)

def armPipeline : Handler :=
  if h.pipelineArmed then h
  else { h with pipelineArmed := true, requestsSem := h.requestsSem + max h.pipelineDepth 1 }

def disarmPipeline : Handler :=
  { h with pipelineArmed := false, pipelineDebt := 0, requestsSem := 0 }

def refillPipelineSlot : Handler :=
  if h.pipelineDebt = 0 then { h with requestsSem := h.requestsSem + 1 }
  else { h with pipelineDebt := h.pipelineDebt - 1 }

def setPipelineDepth (n : Nat) : Handler :=
  let new := max 1 (min n h.maxPipeline)
  let old := h.pipelineDepth
  let h := { h with pipelineDepth := new, largestDepth := max h.largestDepth new }
  if new = old then h
  else if new > old then
    if h.pipelineArmed then { h with requestsSem := h.requestsSem + (new - old) } else h
  else { h with pipelineDebt := h.pipelineDebt + (old - new) }

def growPipeline : Handler :=
  if h.pipelineDepth < h.maxPipeline then h.setPipelineDepth (h.pipelineDepth + 1) else h

def halvePipeline : Handler := h.setPipelineDepth (max (h.pipelineDepth / 2) 1)

def onDeliveryProgress (bytes : Nat) : Handler :=
  let h := { h with
    lastBlockAt := some h.now, snubbed := false, rateWindowBytes := h.rateWindowBytes + bytes }
  let elapsed := h.now - h.rateWindowStart
  if elapsed ≥ 200 then
    let rate := h.rateWindowBytes * 1000 / max elapsed 1
    let prev := h.lastRate
    let h := { h with rateWindowBytes := 0, lastRate := rate, rateWindowStart := h.now }
    if rate > prev ∧ prev > 0 then h.growPipeline else h
  else h

/-! ## Interest and snubbing -/

/-- A piece we need and the peer has. -/
def needs (i : Nat) : Bool :=
  !h.table.hasPiece i && (h.table.wanted i && h.hasBit i)

def peerHasNeededPiece : Bool := (List.range h.table.pieces.length).any h.needs

def neededAllowedFastPieces : List Nat := h.peerAllowedFast.filter h.needs

def refreshInterest : Handler :=
  let wanted := h.isDownloading && (!h.table.isComplete &&
    (h.peerHasNeededPiece || h.neededAllowedFastPieces ≠ []))
  if wanted = h.amInterested then h
  else
    { h.send (if wanted then .interested else .notInterested) with
      amInterested := wanted
      interestedSince := if wanted then some h.now else none }

def maybeSnub : Handler :=
  let start := h.lastBlockAt.or (h.firstRequestAt.or h.interestedSince)
  let waiting := h.outstandingRequests.keys ≠ [] ∨ (h.chocked ∧ h.interestedSince.isSome)
  if !h.snubbed ∧ waiting ∧ ∃ began ∈ start, h.now - began ≥ snubTimeout then
    { h with snubbed := true, table := h.table.snubRelease h.peer }
  else h

/-! ## Dropping requests -/

def dropRequest (req : BlockRequest) : Handler :=
  { h with outstandingRequests := h.outstandingRequests.erase req }

def releaseReservation (index : Nat) : Handler :=
  { h with table := h.table.releaseReservation index h.peer }

/-- The requests that have waited for an answer for too long. -/
def stale : List BlockRequest :=
  h.outstandingRequests.keys.filter fun req =>
    (h.outstandingRequests.lookup req).any fun sent => decide (h.now - sent ≥ requestTimeout)

def expireRequest (req : BlockRequest) : Handler :=
  let h := (h.dropRequest req).send (.cancel req)
  { h with table := h.table.unassignPeerBlocks h.peer }.releaseReservation req.index

def expireStaleRequests : Handler :=
  match h.stale with
  | [] => h
  | stale => stale.foldl expireRequest h.halvePipeline

def unwanted : List BlockRequest :=
  h.outstandingRequests.keys.filter fun req => !h.table.wanted req.index

def cancelRequest (req : BlockRequest) : Handler :=
  (((h.dropRequest req).send (.cancel req)).releaseReservation req.index).refillPipelineSlot

def cancelUnwantedOutstanding : Handler := h.unwanted.foldl cancelRequest h

def drainCancel (req : BlockRequest) : Handler :=
  if req ∈ h.outstandingRequests.keys then (h.dropRequest req).refillPipelineSlot else h

def drainDownloadCancels : Handler :=
  h.downloadCancels.foldl drainCancel { h with downloadCancels := [] }

def requeueOutstanding : Handler :=
  let pieces := h.outstandingRequests.keys.map BlockRequest.index
  let h := { h with outstandingRequests := ∅ }.disarmPipeline
  { h with
    table := pieces.foldl (fun t index => t.releaseReservation index h.peer)
      (h.table.unassignPeerBlocks h.peer) }

/-! ## The message handler -/

def onRejectRequest (req : BlockRequest) : Handler :=
  if req ∈ h.outstandingRequests.keys then
    ((h.dropRequest req).releaseReservation req.index).refillPipelineSlot
  else h.fail .rejectNeverSent

/-- The first part of the handler of a `Piece`: the request is done. -/
def delivered (req : BlockRequest) : Handler :=
  let h := h.dropRequest req
  let h := { h with table := (h.table.noteBlockReceived req h.peer).1 }
  (h.onDeliveryProgress req.length).refillPipelineSlot

/-- A `Piece` message, up to the hash of the piece it completes. -/
def onPiece (index start : Nat) (data : Bytes) : Handler :=
  let h := h.delivered (pieceRequest index start data)
  match (h.table.setChuncks index start data h.peer).1.setDownloadedIfAllChunks index with
  | (table, none) => { h with table }.refreshInterest
  | (table, some pw) =>
    { h with
      table
      verifying := some ⟨index, pw.pieceWork.length, pw.pieceWork.hash, pw.chunkToBuf⟩ }

/-- The rest of the handler of a `Piece`, after the hash of the piece. -/
def onVerified (v : Verification) (ok bannedSelf : Bool) : Handler :=
  let h := { h with verifying := none }
  if ok then
    let (table, claimed) := h.table.claimWrite v.index
    { h with table := if claimed then table.clearPieceChunks v.index else table }.refreshInterest
  else
    let h := { h with table := (h.table.removeDownloaded v.index).releasePiece v.index }
    if bannedSelf then h.fail .bannedAfterHashFailure else h.refreshInterest

def onMessage : PeerMessage → Handler
  | .choke =>
    let h := { h with chocked := true }
    if h.fastExtension then h else h.requeueOutstanding
  | .unchoke => { h with chocked := false }.armPipeline
  | .allowedFast index =>
    if !h.fastExtension then h.fail .notNegotiated
    else if index ∈ h.peerAllowedFast then h
    else { h with peerAllowedFast := h.peerAllowedFast ++ [index] }
  | .bitfield bits needsFast =>
    if needsFast && !h.fastExtension then h.fail .notNegotiated
    else { h with bitfield := bits }.refreshInterest
  | .rejectRequest req =>
    if !h.fastExtension then h.fail .notNegotiated else h.onRejectRequest req
  | .piece index start data => h.onPiece index start data
  | .reqq n =>
    if n = 0 then h
    else
      let reqq := max 1 (min n maxPipelineDepth)
      let h := { h with peerReqq := reqq }
      if h.pipelineDepth > reqq then h.setPipelineDepth reqq else h

def answered (req : BlockRequest) : Handler :=
  { h with unanswered := h.unanswered.erase req }

def noteAnswer : PeerMessage → Handler
  | .piece index start data => h.answered (pieceRequest index start data)
  | .rejectRequest req => h.answered req
  | _ => h

def onReceivedMessage (m : PeerMessage) : Handler :=
  (h.noteAnswer m).drainDownloadCancels.onMessage m

/-! ## The requester -/

def requestPieceBlocks (index : Nat) : Handler :=
  match h.table.pieces[index]? with
  | none => h
  | some pw =>
    let blocks := blocksOf pw.pieceWork.index pw.pieceWork.length
    { h with requester := .blocks (.piece pw.pieceWork.index) blocks }

def requestEndgameBlocks : Handler :=
  let want := h.pipelineDepth - h.outstandingRequests.keys.length
  match h.table.endgameBlocks h.peer h.hasBit want h.now with
  | [] => { h with requester := .top }
  | blocks => { h with requester := .blocks .endgame blocks }

/-- The upkeep at the head of the requester's loop. -/
def upkeep : Handler :=
  h.maybeSnub.expireStaleRequests.drainDownloadCancels.cancelUnwantedOutstanding.refreshInterest

/-- What is requested next; `choice` is what the picker selects. -/
def chooseRequests (choice : Nat) : Handler :=
  let allowed := h.neededAllowedFastPieces
  let canRequestFast := h.chocked && allowed ≠ []
  let inEndgame := h.table.inEndgame
  if !h.peerHasNeededPiece && (!canRequestFast && !inEndgame) then h
  else if h.chocked then
    let picked := if allowed ≠ [] && (!h.snubbed || inEndgame) then
        h.table.pick h.peer (allowed.contains ·) choice
      else none
    match picked with
    | some (index, table) => { h with table }.requestPieceBlocks index
    | none => if inEndgame && canRequestFast then h.requestEndgameBlocks else h
  else if inEndgame then h.requestEndgameBlocks
  else if h.snubbed then { h with requester := .snubWait h.now }
  else
    match h.table.pick h.peer h.hasBit choice with
    | some (index, table) => { h with table }.requestPieceBlocks index
    | none => if h.table.inEndgame then h.requestEndgameBlocks else h

/-- One turn of `task_peer_chunk_requester`, up to its first await. -/
def top (choice : Nat) : Handler :=
  if !h.isDownloading then h.refreshInterest
  else
    let h := h.upkeep
    if h.table.isComplete then h.refreshInterest else h.chooseRequests choice

/-- The head of the loop of `acquire_pipeline_slot`. -/
def awaitSlot (loop : RequestLoop) (req : BlockRequest) (todo : List BlockRequest) : Handler :=
  { h.expireStaleRequests.maybeSnub with requester := .slot loop req todo h.now }

/-- `send_block_request` up to its first await. -/
def sendBlockRequest (loop : RequestLoop) (req : BlockRequest)
    (todo : List BlockRequest) : Handler :=
  if !h.isDownloading then { h with requester := .top }
  else if !h.table.wanted req.index then
    { h.releaseReservation req.index with requester := .blocks loop todo }
  else h.awaitSlot loop req todo

def nextBlock (loop : RequestLoop) : List BlockRequest → Handler
  | [] => { h with requester := .top }
  | req :: todo =>
    match loop with
    | .piece index =>
      if !h.isDownloading || !h.table.wanted index then
        { h.releaseReservation index with requester := .top }
      else h.sendBlockRequest loop req todo
    | .endgame => h.sendBlockRequest loop req todo

/-- The request goes to the writer. -/
def handOver (req : BlockRequest) : Handler :=
  { h.send (.request req) with
    firstRequestAt := h.firstRequestAt.or (some h.now)
    outstandingRequests := h.outstandingRequests.insert req h.now
    unanswered := h.unanswered ++ [req] }

/-- `send_block_request` after its awaits, with a slot. -/
def useSlot (loop : RequestLoop) (req : BlockRequest) (todo : List BlockRequest) : Handler :=
  if !h.isDownloading || !h.table.wanted req.index then
    { h.refillPipelineSlot with
      requester := if h.isDownloading then .blocks loop todo else .top }
  else
    match h.table.assignBlock req h.peer h.now with
    | (_, false) => { h.refillPipelineSlot with requester := .blocks loop todo }
    | (table, true) => { { h with table }.handOver req with requester := .blocks loop todo }

def request (choice : Nat) : Option Handler :=
  match h.requester with
  | .top => some (h.top choice)
  | .snubWait _ => some { h with requester := .top }
  | .blocks loop todo => some (h.nextBlock loop todo)
  | .slot loop req todo _ =>
    if h.requestsSem = 0 then none
    else some { h with requestsSem := h.requestsSem - 1, requester := .limited loop req todo }
  | .limited loop req todo => some (h.useSlot loop req todo)

def timeout : Option Handler :=
  match h.requester with
  | .snubWait since =>
    if h.now - since < 200 then none
    else some (if h.table.inEndgame then h.requestEndgameBlocks else { h with requester := .top })
  | .slot loop req todo since =>
    if h.requestsSem ≠ 0 ∨ h.now - since < requestTimeout then none
    else
      let h := h.halvePipeline.expireStaleRequests
      some (if h.isDownloading then h.awaitSlot loop req todo else { h with requester := .top })
  | _ => none

end Handler

/-! ## The torrent -/

structure Download where
  table : TorrentDownloadedState
  conns : PeerAddr → Option ConnState := fun _ => none
  isDownloading : Bool
  now : Nat := 0
  hashFailures : PeerAddr → Nat := fun _ => 0

inductive DownloadAct where
  | connect (peer : PeerAddr) (fast : Bool)
  | disconnect (peer : PeerAddr)
  | message (peer : PeerAddr) (m : PeerMessage)
  /-- The hash the message handler awaits is there. -/
  | verified (peer : PeerAddr) (ok : Bool)
  | request (peer : PeerAddr) (choice : Nat)
  | timeout (peer : PeerAddr)
  | tick (ms : Nat)
  | setDownloading (downloading : Bool)
  | priorities (prios : List FilePriority)
  /-- Another task (a web seed, the writer, a recheck) changes the pieces. -/
  | pieces (pieces : List PieceWorkState)

namespace Download

variable (d : Download)

def handler (peer : PeerAddr) (c : ConnState) : Handler :=
  { c with peer, table := d.table, isDownloading := d.isDownloading, now := d.now }

/-- The torrent after code of a connection has run. -/
def put (peer : PeerAddr) (h : Handler) : Download :=
  { d with table := h.table, conns := Function.update d.conns peer (some h.toConnState) }

/-- A connection that is not closed. -/
def live (peer : PeerAddr) : Option Handler :=
  (d.conns peer).bind fun c => if c.error.isSome then none else some (d.handler peer c)

/-- The cancels for these requests reach the connection. -/
def pushCancels (c : ConnState) (reqs : List BlockRequest) : ConnState :=
  { c with
    downloadCancels := c.downloadCancels ++ reqs
    sent := c.sent ++ reqs.map .cancel }

/-- `cancel_other_requesters`. -/
def cancelOthers (others : List PeerAddr) (req : BlockRequest) : Download :=
  { d with
    conns := fun q =>
      if q ∈ others then (d.conns q).map fun c => pushCancels c [req] else d.conns q }

/-- The order in which `send_priority_cancels` sorts. -/
def cancelLe (a b : BlockRequest) : Bool :=
  a.index < b.index || a.index = b.index &&
    (a.start < b.start || a.start = b.start && a.length ≤ b.length)

-- Equal requests are neighbours once sorted: the source's `dedup` removes them all.
def priorityCancels (cancels : List (PeerAddr × BlockRequest)) : List BlockRequest :=
  ((cancels.map Prod.snd).insertionSort (cancelLe · ·)).dedup

lemma mem_priorityCancels {cancels : List (PeerAddr × BlockRequest)} {b : BlockRequest} :
    b ∈ priorityCancels cancels ↔ b ∈ cancels.map Prod.snd := by
  rw [priorityCancels, List.mem_dedup, List.mem_insertionSort]

lemma nodup_priorityCancels (cancels : List (PeerAddr × BlockRequest)) :
    (priorityCancels cancels).Nodup := List.nodup_dedup _

def sendPriorityCancels (cancels : List (PeerAddr × BlockRequest)) : Download :=
  { d with conns := fun q => (d.conns q).map fun c => pushCancels c (priorityCancels cancels) }

/-- A message, and the cancels a `Piece` causes at the other peers its block was requested from. -/
def onMessage (h : Handler) (m : PeerMessage) : Download :=
  let d' := d.put h.peer (h.onReceivedMessage m)
  match m with
  | .piece index start data =>
    let req := pieceRequest index start data
    d'.cancelOthers (d.table.noteBlockReceived req h.peer).2 req
  | _ => d'

def recordHashFailure (failures : PeerAddr → Nat) (peer : PeerAddr) (sole : Bool) :
    (PeerAddr → Nat) × Bool :=
  let count := satAddU32 (failures peer) 1
  (Function.update failures peer count, sole || decide (count ≥ hashFailureBanThreshold))

/-- The failures of all contributors, and whether `self` is banned for one of them. -/
def recordHashFailures (failures : PeerAddr → Nat) (contributors : List PeerAddr)
    (self : PeerAddr) : (PeerAddr → Nat) × Bool :=
  contributors.foldl (fun (failures, bannedSelf) peer =>
      let (failures, banned) := recordHashFailure failures peer (contributors.length == 1)
      (failures, bannedSelf || (banned && peer == self)))
    (failures, false)

/-- Whether a piece that fails its hash gets `self` banned. -/
def bans (index : Nat) (self : PeerAddr) : Bool :=
  (recordHashFailures d.hashFailures (d.table.pieceContributors index) self).2

def onVerified (h : Handler) (v : Verification) (ok : Bool) : Download :=
  let d' := d.put h.peer (h.onVerified v ok (d.bans v.index h.peer))
  if ok then d'
  else
    let contributors := d.table.pieceContributors v.index
    { d' with hashFailures := (recordHashFailures d.hashFailures contributors h.peer).1 }

def step : DownloadAct → Option Download
  | .connect peer fast =>
    if (d.conns peer).isSome then none
    else
      some { d with
        conns := Function.update d.conns peer
          (some { fastExtension := fast, rateWindowStart := d.now }) }
  | .disconnect peer =>
    if (d.conns peer).isNone then none
    else
      some { d with
        conns := Function.update d.conns peer none
        table := d.table.removeReserved peer }
  | .message peer m =>
    (d.live peer).bind fun h => if h.verifying.isSome then none else some (d.onMessage h m)
  | .verified peer ok =>
    (d.live peer).bind fun h => h.verifying.map fun v => d.onVerified h v ok
  | .request peer choice => (d.live peer).bind fun h => (h.request choice).map (d.put peer)
  | .timeout peer => (d.live peer).bind fun h => h.timeout.map (d.put peer)
  | .tick ms => some { d with now := d.now + ms }
  | .setDownloading isDownloading => some { d with isDownloading }
  | .priorities prios =>
    let (table, cancels) := d.table.applyFilePriorities prios
    some ({ d with table }.sendPriorityCancels cancels)
  | .pieces pieces =>
    if pieces.map (·.pieceWork) ≠ d.table.pieces.map (·.pieceWork) then none
    else some { d with table := { d.table with pieces, verified := pieces.countP (·.downloaded) } }

/-- A torrent of two pieces of two bytes, without connections. -/
def twoPieces : Download :=
  { table := .new [{ pieceWork := ⟨0, 2, 0⟩ }, { pieceWork := ⟨1, 2, 0⟩ }], isDownloading := true }

/-- A peer that has both pieces connects and unchokes us, and `n` turns of its loop follow. -/
def asked (fast : Bool) (n : Nat) : List DownloadAct :=
  [.connect (localPeer 1) fast, .message (localPeer 1) (.bitfield [true, true] false),
    .message (localPeer 1) .unchoke] ++ .replicate n (.request (localPeer 1) 0)

end Download

end BitRev
