import BitRev.Session.Control

/-!
# Adding torrents and magnets

`add_torrent_meta`, `add_magnet`, `add_torrent_by_info_hash` and the promoter of a magnet, cut at
their `await`s. Adding a metainfo awaits the opening of the storage (`beginAdd` to `openStorage`),
the verification of existing data on the slow path (to `finishTable`) and the listener (to
`insertTorrent`). Adding a magnet awaits the opening of an empty storage and then registers the
pending magnet (`registerPending`); its promoter adds the metainfo once the `info` dict is known,
with the magnet's own state cells.

The existence of a torrent is checked before the first `await`, and the torrent is inserted after
the last one.
-/

namespace BitRev

open Metainfo (TorrentMeta FileError Info)

/-- The bencode decoder and SHA-1. -/
structure Ext where
  decodeInfo : Bytes → Except String Info
  sha1 : Bytes → Digest

/-- What the awaited operation and the file system answer to a step. -/
structure Io where
  /-- The error of the operation, if it fails. -/
  err : Option String := none
  /-- The piece that `verify_existing_pieces` has found good; none when it is done. -/
  piece : Option Nat := none
  relocate : RelocateIo := .moved
  /-- Writing the resume file of this session works. -/
  saved : Nat → Bool := fun _ => true
  /-- The resume timer sees its torrent's shutdown. -/
  timerEnds : Bool := false
  /-- The resume file can be read. -/
  readable : Bool := true
  /-- The files on disk are those the resume file lists. -/
  filesMatch : Bool := true

namespace Session

variable (s : Session)

/-- What `add_torrent_meta` has computed when it opens the storage. `old` is the magnet that is
promoted. -/
def addCall (torrent : Torrent) (opts : AddTorrentOptions) (reuse : Option Nat)
    (call : Option Nat) (io : Io) : AddCall :=
  let old := reuse.map s.pend
  let category := if opts.category = [] then (old.map (·.category)).getD [] else opts.category
  let categories := (s.ensureCategory category).categories
  let outputDir := (opts.outputDir.or (old.map (·.outputDir))).getD
    (resolveOutputDir s.options.downloadDir categories torrent.name category)
  let autoTmm := opts.autoTmm.getD ((old.map (·.autoTmm)).getD opts.outputDir.isNone)
  let skipChecking := opts.skipChecking || (old.map (·.skipChecking)).getD false
  let verify := (opts.verify || (old.map (·.verify)).getD false) && !skipChecking
  let sequential := opts.sequential || (old.map (·.sequential)).getD false
  let filePriorities := if opts.filePriorities ≠ [] then opts.filePriorities
    else (old.map (·.filePriorities)).getD []
  let loaded := if s.options.stateDir.isSome && io.readable then
    s.resumeFiles.lookup torrent.infoHash else none
  let fastPath := loaded.isSome && (skipChecking || (!verify && io.filesMatch))
  { call, torrent, reuse, opts, category, outputDir, autoTmm, sequential, filePriorities, loaded,
    fastPath }

/-- `add_torrent_meta`, up to `Storage::open_with`, with its error if it fails before: the metainfo
has no length, or reading the resume file fails. -/
def beginAdd (m : TorrentMeta) (opts : AddTorrentOptions) (reuse : Option Nat)
    (call : Option Nat) (io : Io) : Session × Option String :=
  match Torrent.new m with
  | none => (s, some "Invalid torrent file: missing length information")
  | some torrent =>
    let c := s.addCall torrent opts reuse call io
    let s := s.ensureCategory c.category
    match (if s.options.stateDir.isSome then io.err else none) with
    | some msg => (s, some msg)
    | none => (s.spawn (.addOpen c), none)

def newTable (c : AddCall) : TorrentDownloadedState :=
  let sequential := c.sequential || (c.loaded.map (·.sequential)).getD false
  let filePriorities := if c.filePriorities ≠ [] then c.filePriorities
    else (c.loaded.map (·.filePriorities)).getD []
  ((TorrentDownloadedState.new c.torrent.piecesOfWork).installContent c.torrent sequential
    filePriorities).1

/-- The session object under construction, and its state cells: the magnet's, or new ones. -/
def allocSession (c : AddCall) : Session :=
  let pipe : Pipeline := { table := newTable c }
  { s with
    sess := Function.update s.sess s.nextSess
      { torrent := c.torrent, ctl := (c.reuse.map fun p => (s.pend p).ctl).getD s.nextCtl,
        storage := .openSync c.torrent c.outputDir, outputDir := c.outputDir, pipe,
        completedAt := c.loaded.bind (·.completedAt), category := c.category,
        autoTmm := c.autoTmm, queuePosition := 0, forceStart := false, running := false,
        cancelled := false }
    nextSess := s.nextSess + 1
    sig := { s.sig with
      ctl := if c.reuse.isSome then s.sig.ctl
        else Function.update s.sig.ctl s.nextCtl ⟨c.torrent.infoHash, .checking, .paused⟩ }
    nextCtl := if c.reuse.isSome then s.nextCtl else s.nextCtl + 1 }

def startsPaused (c : AddCall) : Bool :=
  match c.opts.paused with
  | some paused => paused
  | none => ((c.reuse.map s.pend).map (·.startPaused)).getD false ||
      (c.loaded.map (·.paused)).getD false

def initialState (c : AddCall) (r : Nat) : TorrentState :=
  if s.startsPaused c then .paused else if s.restoring then .queued else s.activeState r

/-- The state cells get the first state of the torrent, and the slots of a promoted magnet the new
torrent. -/
def initTorrent (c : AddCall) (r : Nat) : Session :=
  let old := c.reuse.map s.pend
  { s.modifySess r fun t =>
      { t with
        queuePosition := (old.map (·.queuePosition)).getD s.nextQueuePos
        forceStart := c.opts.forceStart || (old.map (·.forceStart)).getD false } with
    sig := s.sig.initState (s.sess r).ctl (s.initialState c r)
    nextQueuePos := if c.reuse.isSome then s.nextQueuePos else s.nextQueuePos + 1
    pend := fun p => if c.reuse = some p then { s.pend p with slot := some r } else s.pend p }

/-- `add_torrent_meta` from the finished piece table to `wait_listening`. -/
def finishTable (e : Env) (c : AddCall) (r : Nat) : Session :=
  let s := s.noteComplete e r
  (s.initTorrent c r).spawn (.addListen c r (s.initialState c r) (s.startsPaused c))

/-- `add_torrent_meta` after the storage has been opened. -/
def openStorage (e : Env) (c : AddCall) : Session :=
  let r := s.nextSess
  let s := s.allocSession c
  if c.opts.seed then (s.modifyTable r (·.markAllDownloaded)).finishTable e c r
  else
    match c.loaded with
    | some data =>
      if c.fastPath then (s.modifyTable r (·.applyBitfield data.bitfield)).finishTable e c r
      else s.spawn (.addVerify c r)
    | none => s.finishTable e c r

def wakeGlobal (b : Bool) : Session :=
  { s with
    downloadState := if b && s.downloadState ≠ .paused then .downloading else s.downloadState }

def dhtInsert (c : AddCall) (initial : TorrentState) : List DhtCmd :=
  let id := c.torrent.infoHash
  if s.options.dht then
    (if c.torrent.allowsSource .dht then
      [.addTorrent id s.options.listenPort initial.transferEnabled] else []) ++
    (if c.reuse.isSome && c.torrent.isPrivate then [.removeTorrent id] else [])
  else []

def place (c : AddCall) (r : Nat) (initial : TorrentState) : Session :=
  let id := c.torrent.infoHash
  { (s.modifySess r fun t => { t with running := true }).spawn (.writer r .recv) with
    torrents := s.torrents.insert id r
    pending := if c.reuse.isSome then s.pending.erase id else s.pending
    sig := { s.sig with dhtTx := s.sig.dhtTx ++ s.dhtInsert c initial }
    returned := s.returned ++ (c.call.map fun call => (call, id)).toList }

/-- `add_torrent_meta` from the listener to its end. -/
def insertTorrent (e : Env) (c : AddCall) (r : Nat) (initial : TorrentState)
    (startPaused : Bool) (saved : Nat → Bool) : Session :=
  let id := c.torrent.infoHash
  let s := s.place c r initial
  let s := (s.persist r (saved r)).spawnIf s.options.stateDir.isSome (.resumeTimer r)
  let s := ((s.wakeGlobal initial.transferEnabled).emit (.added id)).emit (.stateChanged id initial)
  (s.evaluateQueueIf (!startPaused) e).spawnIf (s.isComplete r) (.moveOnComplete r)

def addExisting (call : Nat) (id : TorrentId) : Session :=
  { s with returned := s.returned ++ [(call, id)] }

def known (id : TorrentId) : Bool := id ∈ s.torrents || id ∈ s.pending

/-- `add_torrent` of a metainfo. -/
def addMeta (call : Nat) (m : TorrentMeta) (opts : AddTorrentOptions) (io : Io) : Session :=
  if s.known m.infoHash then s.addExisting call m.infoHash
  else (s.beginAdd m opts none (some call) io).1

/-- `add_torrent` of a magnet, up to `Storage::open_with`. -/
def addMagnet (call : Nat) (m : Magnet) (opts : AddTorrentOptions) : Session :=
  if s.known m.infoHash then s.addExisting call m.infoHash
  else
    let s := s.ensureCategory opts.category
    let outputDir := opts.outputDir.getD
      (resolveOutputDir s.options.downloadDir s.categories m.nameOrHash opts.category)
    s.spawn (.pendingOpen ⟨call, m.infoHash, m.nameOrHash, outputDir, opts, true⟩)

/-- `add_torrent_by_info_hash`, up to `Storage::open_with`; `tmp` is the directory for temporary
files. -/
def addInfoHash (call : Nat) (h : Digest) (outputDir : Option Bytes) (tmp : Bytes) : Session :=
  if s.known h then s.addExisting call h
  else
    s.spawn (.pendingOpen ⟨call, h, Magnet.hexInfoHash h,
      outputDir.getD (Path.push tmp (ascii "bitrev-metadata")), { outputDir }, false⟩)

/-- The torrent that stands for a magnet until its `info` dict is known. -/
def placeholder (h : Digest) (name : Bytes) : Torrent :=
  { infoHash := h, pieceHashes := [], pieceLength := 16 * 1024, length := 0, files := [], name,
    isPrivate := false }

/-- The state a magnet starts in. -/
def pendingInitial (c : PendingCall) : TorrentState :=
  if c.opts.paused.getD false then .paused else .metadata

/-- `register_pending` after the storage has been opened, and the rest of the add call. -/
def registerPending (c : PendingCall) : Session :=
  let initial := pendingInitial c
  let q : PendingTorrent :=
    { ctl := s.nextCtl, infoBytes := none, placeholder := placeholder c.infoHash c.name,
      slot := none, outputDir := c.outputDir, startPaused := c.opts.paused.getD false,
      verify := c.opts.verify, skipChecking := c.opts.skipChecking, category := c.opts.category,
      autoTmm := c.opts.autoTmm.getD c.opts.outputDir.isNone, sequential := c.opts.sequential,
      filePriorities := c.opts.filePriorities, queuePosition := s.nextQueuePos,
      forceStart := c.opts.forceStart }
  let cmds : List DhtCmd := if c.magnet && s.options.dht then
    [.addTorrent c.infoHash s.options.listenPort initial.transferEnabled] else []
  { (s.spawnIf c.magnet (.promoter s.nextPend)).wakeGlobal c.magnet with
    pend := Function.update s.pend s.nextPend q
    nextPend := s.nextPend + 1
    nextCtl := s.nextCtl + 1
    nextQueuePos := s.nextQueuePos + 1
    pending := s.pending.insert c.infoHash s.nextPend
    returned := s.returned ++ [(c.call, c.infoHash)]
    sig :=
      { ctl := Function.update s.sig.ctl s.nextCtl
          ⟨c.infoHash, initial, syncDownloadState initial⟩
        events := if c.magnet then
          s.sig.events ++ [.added c.infoHash, .stateChanged c.infoHash initial] else s.sig.events
        dhtTx := s.sig.dhtTx ++ cmds } }

def promotionFailed (p : Nat) (msg : String) : Session :=
  { s with
    sig := (s.sig.writeState (s.pend p).ctl (.error msg)).emit
      (.error (s.pend p).placeholder.infoHash msg) }

def promoterOptions (q : PendingTorrent) : AddTorrentOptions :=
  { outputDir := some q.outputDir, verify := q.verify, skipChecking := q.skipChecking,
    paused := some q.startPaused, category := q.category, sequential := q.sequential,
    filePriorities := q.filePriorities, autoTmm := some q.autoTmm, forceStart := q.forceStart }

/-- The promoter, once the `info` dict is known. -/
def promote (x : Ext) (s : Session) (p : Nat) (bytes : Bytes) (io : Io) : Session :=
  match TorrentMeta.fromInfoBytes x.decodeInfo x.sha1 bytes with
  | .error err => s.promotionFailed p err.message
  | .ok m =>
    match s.beginAdd m (promoterOptions (s.pend p)) (some p) none io with
    | (s, none) => s
    | (s, some msg) => s.promotionFailed p msg

/-- An `add_torrent_meta` fails: the promoter records it, a caller gets it. -/
def addFailed (c : AddCall) (msg : String) : Session :=
  match c.reuse with
  | some p => s.promotionFailed p msg
  | none => s

end Session

end BitRev
