import BitRev.Session.Queue

/-!
# The control operations

The operations of `session.rs` that a frontend calls on torrents by id: pausing and resuming,
forcing a start, file priorities, the save path, recheck, categories, queue positions and removal,
and the periodic `tick`. An operation that awaits something ends here in a suspended `Task`; how
the task goes on is in `Session.Step`.

Operations look an id up in one of two ways: `byId` takes a torrent before a pending magnet,
`onTorrent` takes a pending magnet only while there is no torrent.
-/

namespace BitRev

inductive ControlError where
  | notFound (id : TorrentId)
  | noMetadata (id : TorrentId)
  | noSuchFile (id : TorrentId) (index : Nat)
  | categoryExists (name : Bytes)
  | categoryNotFound (name : Bytes)
  | categoryPersist (msg : String)

namespace Session

variable (s : Session)

def byId (id : TorrentId) (torrent pending : Nat → Session) : Except ControlError Session :=
  match s.torrents.lookup id with
  | some r => .ok (torrent r)
  | none =>
    match s.pending.lookup id with
    | some p => .ok (pending p)
    | none => .error (.notFound id)

def pendingOnly (id : TorrentId) : Option Nat :=
  if id ∈ s.torrents then none else s.pending.lookup id

def onTorrent (id : TorrentId) (pending torrent : Nat → Except ControlError Session) :
    Except ControlError Session :=
  match s.pendingOnly id with
  | some p => pending p
  | none =>
    match s.torrents.lookup id with
    | some r => torrent r
    | none => .error (.notFound id)

/-! ## Pausing and resuming -/

def setAll (cells : List (Nat × TorrentId × TorrentState)) : Session :=
  { s with sig := cells.foldl (fun g x => g.setState x.1 x.2.1 x.2.2) s.sig }

def pause (e : Env) (id : TorrentId) : Except ControlError Session :=
  s.byId id
    (fun r => ((s.setTorrentState r id .paused).dhtSend (.setActive id false)).spawnFlushOne r
      |>.evaluateQueue e)
    (fun p => ((s.setPendingState p id .paused).dhtSend (.setActive id false)).evaluateQueue e)

def pauseAll : Session :=
  let cells := s.torrents.entries.map (fun x => ((s.sess x.2).ctl, x.1, TorrentState.paused)) ++
    s.pending.entries.map fun x => ((s.pend x.2).ctl, x.1, TorrentState.paused)
  (({ s with downloadState := .paused }.setAll cells).dhtSend (.setAllActive false)).spawnFlushResume

/-- After resuming, the DHT actor is told whether the torrent got a slot. -/
def resumeTail (e : Env) (id : TorrentId) (c : Nat) : Session :=
  let s := { s with downloadState := .downloading }.evaluateQueue e
  s.dhtSend (.setActive id (s.state c).transferEnabled)

def resume (e : Env) (id : TorrentId) : Except ControlError Session :=
  s.byId id
    (fun r => ((s.setTorrentState r id (s.activeState r)).resumeTail e id (s.sess r).ctl).spawnFlushOne r)
    (fun p => (s.setPendingState p id .metadata).resumeTail e id (s.pend p).ctl)

def resumeAll (e : Env) : Session :=
  let cells := s.torrents.entries.map (fun x => ((s.sess x.2).ctl, x.1, s.activeState x.2)) ++
    s.pending.entries.map fun x => ((s.pend x.2).ctl, x.1, TorrentState.metadata)
  (({ s with downloadState := .downloading }.setAll cells).evaluateQueue e).dhtSend
    (.setAllActive true) |>.spawnFlushResume

def setForceStart (e : Env) (id : TorrentId) (enabled : Bool) : Except ControlError Session :=
  s.byId id
    (fun r => ((s.modifySess r fun t => { t with forceStart := enabled }).setTorrentStateIf enabled
      r id (s.activeState r)).evaluateQueue e |>.spawnFlushOne r)
    (fun p => ((s.modifyPend p fun t => { t with forceStart := enabled }).setPendingStateIf enabled
      p id .metadata).evaluateQueue e)

/-! ## File priorities -/

def afterContentChange (e : Env) (r : Nat) (id : TorrentId) : Session :=
  let st := s.state (s.sess r).ctl
  let first := s.firstComplete r
  let s := s.setTorrentStateIf (st ≠ .paused ∧ st ≠ .checking) r id (s.activeState r)
  let s := ((s.noteComplete e r).emitIf first (.completed id)).spawnIf first (.moveOnComplete r)
  (s.evaluateQueue e).spawnFlushOne r

def setFilePriority (e : Env) (id : TorrentId) (fileIndex : Nat)
    (prio : FilePriority) : Except ControlError Session :=
  s.onTorrent id
    (fun p => .ok (s.modifyPend p fun t =>
      { t with
        filePriorities :=
          (FilePriority.normalizeList (max t.filePriorities.length (fileIndex + 1))
            t.filePriorities).set fileIndex prio }))
    (fun r =>
      match (s.sess r).pipe.table.setFilePriority fileIndex prio with
      | none => .error (.noSuchFile id fileIndex)
      | some (table, _) => .ok ((s.modifyTable r fun _ => table).afterContentChange e r id))

def setFilePriorities (e : Env) (id : TorrentId) (prios : List FilePriority) :
    Except ControlError Session :=
  s.onTorrent id
    (fun p => .ok (s.modifyPend p fun t => { t with filePriorities := prios }))
    (fun r =>
      .ok ((s.modifyTable r fun t => (t.applyFilePriorities prios).1).afterContentChange e r id))

/-! ## Moving and checking -/

/-- `relocate_torrent`, up to `Storage::relocate`. -/
def beginRelocate (r : Nat) (newOutput : Bytes) (after : AfterMove) : Session :=
  let t := s.sess r
  (s.setTorrentState r t.torrent.infoHash .moving).spawn
    (.relocate r (s.state t.ctl) newOutput after)

/-- Where `maybe_move_on_complete` moves a torrent to, if it does. -/
def moveTarget (r : Nat) : Option Bytes :=
  let t := s.sess r
  if !t.autoTmm || s.options.completedDir = [] then none
  else
    let destDir := if t.category = [] then s.options.completedDir
      else Path.push s.options.completedDir t.category
    let newOutput := Path.push destDir t.torrent.name
    if Path.eq t.outputDir newOutput then none else some newOutput

/-- `saved` says for each torrent whether writing its resume file works. -/
def afterMove (r : Nat) (saved : Nat → Bool) : AfterMove → Session
  | .done => s
  | .recheck => s.spawnFlushOne r
  | .writer => (s.persist r (saved r)).spawn (.writer r .sending)

/-- `maybe_move_on_complete`, and what its caller does when there is nothing to move. -/
def maybeMoveOnComplete (r : Nat) (saved : Nat → Bool) (after : AfterMove) : Session :=
  match s.moveTarget r with
  | some newOutput => s.beginRelocate r newOutput after
  | none => s.afterMove r saved after

def setSavePath (id : TorrentId) (path : Bytes) (moveFiles : Bool) : Except ControlError Session :=
  s.onTorrent id
    (fun p => .ok (s.modifyPend p fun t => { t with outputDir := path, autoTmm := false }))
    (fun r =>
      let s := s.modifySess r fun t => { t with autoTmm := false }
      if moveFiles then .ok (s.beginRelocate r path .done)
      else .ok ((s.modifySess r fun t => { t with outputDir := path }).spawnFlushOne r))

/-- `recheck`, up to `verify_existing_pieces`. -/
def recheck (id : TorrentId) : Except ControlError Session :=
  s.onTorrent id
    (fun _ => .error (.noMetadata id))
    (fun r =>
      .ok (((s.setTorrentState r id .checking).modifyTable r (·.clearAllDownloaded)).spawn
        (.recheck r (s.state (s.sess r).ctl = .paused))))

/-! ## Other operations -/

def setSequential (id : TorrentId) (sequential : Bool) : Except ControlError Session :=
  s.onTorrent id
    (fun p => .ok (s.modifyPend p fun t => { t with sequential }))
    (fun r => .ok ((s.modifyTable r fun t => { t with sequential }).spawnFlushOne r))

/-- The tags themselves are left out. -/
def withTags (id : TorrentId) : Except ControlError Session :=
  s.onTorrent id (fun _ => .ok s) (fun r => .ok (s.spawnFlushOne r))

/-- The limits are in the `Env`. -/
def setShareLimits (id : TorrentId) : Except ControlError Session :=
  s.byId id (fun r => s.spawnFlushOne r) (fun _ => s)

/-- A category that is not known yet is made, without a save path. -/
def ensureCategory (name : Bytes) : Session :=
  { s with
    categories := if name = [] ∨ name ∈ s.categories then s.categories
      else s.categories.insert name ⟨none⟩ }

/-- The session after an operation, which leaves it as it is if it fails. -/
def after (result : Except ControlError Session) : Session :=
  match result with
  | .ok s' => s'
  | .error _ => s

/-- The end of `set_category`. -/
def storeCategory (id : TorrentId) (category : Bytes) : Except ControlError Session :=
  s.onTorrent id
    (fun p => .ok (s.modifyPend p fun t => { t with category }))
    (fun r => .ok ((s.modifySess r fun t => { t with category }).spawnFlushOne r))

/-- The session after `set_category`: a new category is made even if the rest fails. `saved` says
whether writing the categories file works. -/
def setCategory (id : TorrentId) (category : Bytes) (saved : Bool) : Session :=
  let isNew : Bool := category ≠ [] ∧ category ∉ s.categories
  let s := s.ensureCategory category
  s.after (if isNew && s.options.stateDir.isSome && !saved then
    .error (.categoryPersist "failed to write categories") else s.storeCategory id category)

def createCategory (name : Bytes) (savePath : Option Bytes) : Except ControlError Session :=
  if name = [] then .ok s
  else if name ∈ s.categories then .error (.categoryExists name)
  else .ok { s with categories := s.categories.insert name ⟨savePath.filter (· ≠ [])⟩ }

def editCategory (name : Bytes) (savePath : Option Bytes) : Except ControlError Session :=
  if name ∉ s.categories then .error (.categoryNotFound name)
  else .ok { s with categories := s.categories.replace name ⟨savePath.filter (· ≠ [])⟩ }

def removeCategory (name : Bytes) : Except ControlError Session :=
  if name ∉ s.categories then .error (.categoryNotFound name)
  else
    let users := (s.torrents.entries.map (·.2)).filter fun r => (s.sess r).category = name
    let magnets := s.pending.entries.map (·.2)
    .ok { s with
      categories := s.categories.erase name
      sess := fun r => if r ∈ users then { s.sess r with category := [] } else s.sess r
      pend := fun p => if p ∈ magnets ∧ (s.pend p).category = name then
        { s.pend p with category := [] } else s.pend p
      tasks := s.tasks ++ if s.options.stateDir.isSome then users.map fun r => .flush [r] else [] }

def setQueuePosition (e : Env) (id : TorrentId) (pos : Nat) : Except ControlError Session :=
  if id ∉ s.queueOrder then .error (.notFound id)
  else
    let ids := s.queueOrder.filter (· ≠ id)
    .ok ((s.applyQueueOrder (ids.insertIdx (min pos ids.length) id)).evaluateQueue e
      |>.spawnFlushResume)

/-! ## Removal -/

/-- The paths `delete_torrent_files` is called for, by id. -/
def filesToDelete (id : TorrentId) : List Bytes :=
  match s.torrents.lookup id, s.pending.lookup id with
  | some r, _ => (s.sess r).torrent.filePaths (s.sess r).outputDir
  | none, some p => (s.pendingTorrent p).filePaths (s.pend p).outputDir
  | none, none => []

/-- What a removal takes out of the session: the torrent and magnet, the resume file of a torrent
and, if asked, the files. The torrent is shut down. -/
def takeOut (id : TorrentId) (deleteFiles : Bool) : Session :=
  { s with
    torrents := s.torrents.erase id
    pending := s.pending.erase id
    sess := fun r => if s.torrents.lookup id = some r then { s.sess r with cancelled := true }
      else s.sess r
    resumeFiles := if id ∈ s.torrents ∧ s.options.stateDir.isSome then s.resumeFiles.erase id
      else s.resumeFiles
    deleted := s.deleted ++ if deleteFiles then s.filesToDelete id else [] }

def removeTorrent (e : Env) (id : TorrentId) (deleteFiles : Bool) : Except ControlError Session :=
  if id ∈ s.torrents ∨ id ∈ s.pending then
    .ok ((((s.takeOut id deleteFiles).dhtSend (.removeTorrent id)).emit (.removed id)).evaluateQueue
      e)
  else .error (.notFound id)

/-! ## The tick -/

/-- A download in the cell `c` becomes seeding; the download state is not touched. -/
def seedIf (b : Bool) (c : Nat) (id : TorrentId) : Session :=
  { s with
    sig := if b ∧ s.state c = .downloading then
      (s.sig.writeState c .seeding).emit (.stateChanged id .seeding) else s.sig }

/-- `tick_session` for one torrent: a download found complete becomes seeding. -/
def tickOne (e : Env) (x : Sigma fun _ : Digest => Nat) : Session :=
  let first := s.firstComplete x.2
  ((s.noteComplete e x.2).emitIf first (.completed x.1)).seedIf first (s.sess x.2).ctl x.1

def overLimit (e : Env) : List TorrentId :=
  (s.torrents.entries.filter fun x =>
    let st := s.state (s.sess x.2).ctl
    (st = .seeding ∨ st = .downloading) ∧ s.seedLimitReached e x.2 x.1).map (·.1)

def tick (e : Env) : Session :=
  let s := s.torrents.entries.foldl (fun s x => s.tickOne e x) s
  let s := (s.overLimit e).foldl (fun s id => s.after (s.pause e id)) s
  s.evaluateQueue e

/-! ## All of them -/

inductive Op where
  | pause (id : TorrentId)
  | resume (id : TorrentId)
  | setForceStart (id : TorrentId) (enabled : Bool)
  | setFilePriority (id : TorrentId) (fileIndex : Nat) (prio : FilePriority)
  | setFilePriorities (id : TorrentId) (prios : List FilePriority)
  | setSavePath (id : TorrentId) (path : Bytes) (moveFiles : Bool)
  | recheck (id : TorrentId)
  | setSequential (id : TorrentId) (sequential : Bool)
  | withTags (id : TorrentId)
  | setShareLimits (id : TorrentId)
  | setCategory (id : TorrentId) (category : Bytes) (saved : Bool)
  | createCategory (name : Bytes) (savePath : Option Bytes)
  | editCategory (name : Bytes) (savePath : Option Bytes)
  | removeCategory (name : Bytes)
  | setQueuePosition (id : TorrentId) (pos : Nat)

def control (e : Env) : Op → Session
  | .pause id => s.after (s.pause e id)
  | .resume id => s.after (s.resume e id)
  | .setForceStart id enabled => s.after (s.setForceStart e id enabled)
  | .setFilePriority id fileIndex prio => s.after (s.setFilePriority e id fileIndex prio)
  | .setFilePriorities id prios => s.after (s.setFilePriorities e id prios)
  | .setSavePath id path moveFiles => s.after (s.setSavePath id path moveFiles)
  | .recheck id => s.after (s.recheck id)
  | .setSequential id sequential => s.after (s.setSequential id sequential)
  | .withTags id => s.after (s.withTags id)
  | .setShareLimits id => s.after (s.setShareLimits id)
  | .setCategory id category saved => s.setCategory id category saved
  | .createCategory name savePath => s.after (s.createCategory name savePath)
  | .editCategory name savePath => s.after (s.editCategory name savePath)
  | .removeCategory name => s.after (s.removeCategory name)
  | .setQueuePosition id pos => s.after (s.setQueuePosition e id pos)

end Session

end BitRev
