import BitRev.Pieces.Pipeline
import BitRev.Storage.Files

/-!
# The state of a session

`session.rs`: the torrents and pending magnets of a session, the state cells they share, and the
tasks that are suspended at an `await`. Objects behind an `Arc` live in heaps and are named by
numbers, so that two holders of one object see the same one: a magnet's control cells become those
of the `TorrentSession` it is promoted to. What a session sends to others (state changes, events,
commands for the DHT actor) is kept in `Signals`.

Rates, limits on them, tags and web seeds decide nothing here and are left out; whether a torrent
is slow or has reached its seed limit is given by the `Env` of each step.
-/

namespace BitRev

/-- `TorrentId`: the info hash. -/
abbrev TorrentId := Digest

inductive DownloadState where
  | init
  | downloading
  | paused
  deriving DecidableEq

/-- Per-torrent lifecycle; `queued` waits for a download or upload slot. -/
inductive TorrentState where
  | checking
  | metadata
  | downloading
  | seeding
  | paused
  | queued
  | moving
  | error (message : String)
  deriving DecidableEq

namespace TorrentState

def transferEnabled : TorrentState → Bool
  | downloading | seeding | metadata => true
  | _ => false

/-- The states the queue leaves alone. -/
def isBlocked : TorrentState → Bool
  | paused | checking | moving | error _ => true
  | _ => false

/-- The states a torrent has again after a move; the others become active. -/
def keptByMove : TorrentState → Bool
  | paused | error _ => true
  | _ => false

end TorrentState

/-- What `sync_download_state` stores. -/
def syncDownloadState (st : TorrentState) : DownloadState :=
  if st.transferEnabled then .downloading else .paused

inductive SessionEvent where
  | added (id : TorrentId)
  | removed (id : TorrentId)
  | stateChanged (id : TorrentId) (state : TorrentState)
  | completed (id : TorrentId)
  | error (id : TorrentId) (message : String)
  deriving DecidableEq

/-- Commands to the DHT actor. -/
inductive DhtCmd where
  | addTorrent (infoHash : Digest) (port : Nat) (active : Bool)
  | removeTorrent (infoHash : Digest)
  | setActive (infoHash : Digest) (active : Bool)
  | setAllActive (active : Bool)

/-- The `torrent_state` and `download_state` cells of a torrent, made for one info hash. -/
structure Ctl where
  infoHash : Digest
  torrentState : TorrentState
  downloadState : DownloadState

/-- What the session's operations change about the torrents' states and send out. -/
structure Signals where
  ctl : Nat → Ctl
  events : List SessionEvent := []
  dhtTx : List DhtCmd := []

structure SessionOptions where
  stateDir : Option Bytes := none
  downloadDir : Bytes := []
  completedDir : Bytes := []
  maxActiveDownloads : Nat := 0
  maxActiveUploads : Nat := 0
  maxActive : Nat := 0
  dontCountSlow : Bool := false
  /-- The DHT actor runs. -/
  dht : Bool := false
  listenPort : Nat := 6881

structure TorrentSession where
  torrent : Torrent
  ctl : Nat
  storage : Storage
  outputDir : Bytes
  pipe : Pipeline
  completedAt : Option Nat
  category : Bytes
  autoTmm : Bool
  queuePosition : Nat
  forceStart : Bool
  /-- The session is in use: its choke loop and writer are spawned and its sources registered. -/
  running : Bool
  /-- `tracker.shutdown` has been called. -/
  cancelled : Bool

/-- A magnet or bare info hash whose `info` dict is not known yet. -/
structure PendingTorrent where
  ctl : Nat
  /-- `metadata.info_bytes`. -/
  infoBytes : Option Bytes
  placeholder : Torrent
  /-- The session that the torrent, storage and table slots were set to. -/
  slot : Option Nat
  outputDir : Bytes
  startPaused : Bool
  verify : Bool
  skipChecking : Bool
  category : Bytes
  autoTmm : Bool
  sequential : Bool
  filePriorities : List FilePriority
  queuePosition : Nat
  forceStart : Bool

structure AddTorrentOptions where
  outputDir : Option Bytes := none
  seed : Bool := false
  verify : Bool := false
  paused : Option Bool := none
  category : Bytes := []
  sequential : Bool := false
  skipChecking : Bool := false
  filePriorities : List FilePriority := []
  autoTmm : Option Bool := none
  forceStart : Bool := false

/-- What a resume file holds that adding the torrent again reads. -/
structure ResumeData where
  bitfield : List Bool
  paused : Bool
  completedAt : Option Nat
  sequential : Bool
  filePriorities : List FilePriority

abbrev ResumeFiles := AList fun _ : Digest => ResumeData

/-- An `add_torrent_meta` past its first checks: who called it (`none` for the promoter of a
magnet) and what it has computed. -/
structure AddCall where
  call : Option Nat
  torrent : Torrent
  reuse : Option Nat
  opts : AddTorrentOptions
  category : Bytes
  outputDir : Bytes
  autoTmm : Bool
  sequential : Bool
  filePriorities : List FilePriority
  loaded : Option ResumeData
  fastPath : Bool

/-- A `register_pending` past its first check. -/
structure PendingCall where
  call : Nat
  infoHash : Digest
  name : Bytes
  outputDir : Bytes
  opts : AddTorrentOptions
  /-- Called by `add_magnet`, which then spawns a promoter, or by `add_torrent_by_info_hash`. -/
  magnet : Bool

/-- What the caller of `relocate_torrent` does after it. -/
inductive AfterMove where
  /-- Nothing: `set_save_path`, or a task of its own. -/
  | done
  /-- The end of `recheck`. -/
  | recheck
  /-- The writer task goes on. -/
  | writer
  deriving DecidableEq

/-- Where the writer task of a torrent is suspended. -/
inductive WriterPc where
  | recv
  | writing
  | syncing
  | sending

/-- A task or call suspended at an `await`. -/
inductive Task where
  /-- `add_torrent_meta`, in `Storage::open_with`. -/
  | addOpen (c : AddCall)
  /-- `add_torrent_meta`, in `verify_existing_pieces` of the session `r` under construction. -/
  | addVerify (c : AddCall) (r : Nat)
  /-- `add_torrent_meta`, in `wait_listening`. -/
  | addListen (c : AddCall) (r : Nat) (initial : TorrentState) (startPaused : Bool)
  /-- `register_pending`, in `Storage::open_with`. -/
  | pendingOpen (c : PendingCall)
  /-- The promoter of a magnet, waiting for the `info` dict. -/
  | promoter (p : Nat)
  /-- `recheck`, in `verify_existing_pieces`. -/
  | recheck (r : Nat) (stayPaused : Bool)
  /-- `relocate_torrent`, in `Storage::relocate`. -/
  | relocate (r : Nat) (previous : TorrentState) (newOutput : Bytes) (after : AfterMove)
  /-- A spawned `maybe_move_on_complete`. -/
  | moveOnComplete (r : Nat)
  /-- A spawned flush of resume data. -/
  | flush (rs : List Nat)
  | resumeTimer (r : Nat)
  | writer (r : Nat) (pc : WriterPc)

structure Session where
  options : SessionOptions
  torrents : AList fun _ : Digest => Nat := ∅
  pending : AList fun _ : Digest => Nat := ∅
  sess : Nat → TorrentSession
  nextSess : Nat := 0
  pend : Nat → PendingTorrent
  nextPend : Nat := 0
  nextCtl : Nat := 0
  sig : Signals
  tasks : List Task := []
  categories : Categories := ∅
  downloadState : DownloadState := .init
  nextQueuePos : Nat := 0
  restoring : Bool := false
  /-- The resume files in the state directory. -/
  resumeFiles : ResumeFiles := ∅
  /-- The paths given to `remove_file` by removals so far. -/
  deleted : List Bytes := []
  /-- The add calls that have returned `Ok`, with the id they returned. -/
  returned : List (Nat × TorrentId) := []

/-- What the surroundings say during one step. -/
structure Env where
  now : Nat := 0
  /-- The torrent's rates have been low for the whole slow window. -/
  slow : TorrentId → Bool := fun _ => false
  /-- The ratio or seeding-time limit of a complete torrent is reached. -/
  seedLimit : TorrentId → Bool := fun _ => false

namespace Signals

def emit (g : Signals) (ev : SessionEvent) : Signals := { g with events := g.events ++ [ev] }

/-- Store a state in the cells `c`; an event only if it is a new one. -/
def setState (g : Signals) (c : Nat) (id : TorrentId) (st : TorrentState) : Signals :=
  { g with
    ctl := Function.update g.ctl c
      { g.ctl c with torrentState := st, downloadState := syncDownloadState st }
    events := if (g.ctl c).torrentState = st then g.events
      else g.events ++ [.stateChanged id st] }

/-- Store a state without telling anyone and without the download state. -/
def writeState (g : Signals) (c : Nat) (st : TorrentState) : Signals :=
  { g with ctl := Function.update g.ctl c { g.ctl c with torrentState := st } }

/-- Store the first state of a torrent, without telling anyone. -/
def initState (g : Signals) (c : Nat) (st : TorrentState) : Signals :=
  { g with
    ctl := Function.update g.ctl c
      { g.ctl c with torrentState := st, downloadState := syncDownloadState st } }

variable (g : Signals) (c c' : Nat) (id : TorrentId) (st : TorrentState)

lemma setState_ctl_self : (g.setState c id st).ctl c =
    { g.ctl c with torrentState := st, downloadState := syncDownloadState st } :=
  Function.update_self ..

lemma setState_ctl_ne {c c' : Nat} (h : c' ≠ c) : (g.setState c id st).ctl c' = g.ctl c' :=
  Function.update_of_ne h ..

@[simp] lemma setState_infoHash : ((g.setState c id st).ctl c').infoHash = (g.ctl c').infoHash := by
  rcases eq_or_ne c' c with rfl | h
  · rw [setState_ctl_self]
  · rw [setState_ctl_ne g id st h]

@[simp] lemma setState_dhtTx : (g.setState c id st).dhtTx = g.dhtTx := rfl

lemma writeState_ctl_self : (g.writeState c st).ctl c = { g.ctl c with torrentState := st } :=
  Function.update_self ..

lemma writeState_ctl_ne {c c' : Nat} (h : c' ≠ c) : (g.writeState c st).ctl c' = g.ctl c' :=
  Function.update_of_ne h ..

@[simp] lemma writeState_infoHash :
    ((g.writeState c st).ctl c').infoHash = (g.ctl c').infoHash := by
  rcases eq_or_ne c' c with rfl | h
  · rw [writeState_ctl_self]
  · rw [writeState_ctl_ne g st h]

end Signals

namespace Session

variable (s : Session)

def state (c : Nat) : TorrentState := (s.sig.ctl c).torrentState

def emit (ev : SessionEvent) : Session := { s with sig := s.sig.emit ev }

def emitIf (b : Bool) (ev : SessionEvent) : Session :=
  { s with sig := { s.sig with events := if b then s.sig.events ++ [ev] else s.sig.events } }

def dhtSend (cmd : DhtCmd) : Session :=
  { s with
    sig := { s.sig with dhtTx := if s.options.dht then s.sig.dhtTx ++ [cmd] else s.sig.dhtTx } }

def spawn (t : Task) : Session := { s with tasks := s.tasks ++ [t] }

def spawnIf (b : Bool) (t : Task) : Session :=
  { s with tasks := s.tasks ++ if b then [t] else [] }

def modifySess (r : Nat) (f : TorrentSession → TorrentSession) : Session :=
  { s with sess := Function.update s.sess r (f (s.sess r)) }

def modifyPend (p : Nat) (f : PendingTorrent → PendingTorrent) : Session :=
  { s with pend := Function.update s.pend p (f (s.pend p)) }

def modifyTable (r : Nat) (f : TorrentDownloadedState → TorrentDownloadedState) : Session :=
  s.modifySess r fun t => { t with pipe := { t.pipe with table := f t.pipe.table } }

def setTorrentState (r : Nat) (id : TorrentId) (st : TorrentState) : Session :=
  { s with sig := s.sig.setState (s.sess r).ctl id st }

def setTorrentStateIf (b : Bool) (r : Nat) (id : TorrentId) (st : TorrentState) : Session :=
  { s with sig := if b then s.sig.setState (s.sess r).ctl id st else s.sig }

def setPendingState (p : Nat) (id : TorrentId) (st : TorrentState) : Session :=
  { s with sig := s.sig.setState (s.pend p).ctl id st }

def setPendingStateIf (b : Bool) (p : Nat) (id : TorrentId) (st : TorrentState) : Session :=
  { s with sig := if b then s.sig.setState (s.pend p).ctl id st else s.sig }

def isComplete (r : Nat) : Bool := (s.sess r).pipe.table.isComplete

def activeState (r : Nat) : TorrentState :=
  if s.isComplete r then .seeding else .downloading

/-- A torrent is complete and `completed_at` does not say so yet. -/
def firstComplete (r : Nat) : Bool :=
  s.isComplete r && (s.sess r).completedAt.isNone

/-- Set `completed_at` of a complete torrent, once. -/
def noteComplete (e : Env) (r : Nat) : Session :=
  s.modifySess r fun t =>
    { t with
      completedAt := if t.pipe.table.isComplete then t.completedAt.or (some e.now)
        else t.completedAt }

def pendingTorrent (p : Nat) : Torrent :=
  match (s.pend p).slot with
  | some r => (s.sess r).torrent
  | none => (s.pend p).placeholder

def spawnFlushOne (r : Nat) : Session :=
  s.spawnIf s.options.stateDir.isSome (.flush [r])

def spawnFlushResume : Session :=
  s.spawnIf s.options.stateDir.isSome (.flush (s.torrents.entries.map (·.2)))

/-- What `persist_torrent` writes for a torrent. -/
def snapshot (r : Nat) : ResumeData :=
  let t := s.sess r
  { bitfield := t.pipe.table.ourBitfield, paused := s.state t.ctl = .paused,
    completedAt := t.completedAt, sequential := t.pipe.table.sequential,
    filePriorities := t.pipe.table.filePriorities }

/-- `persist_torrent`: the resume file is written, or writing it fails. -/
def persist (r : Nat) (ok : Bool) : Session :=
  { s with
    resumeFiles :=
      if ok && s.options.stateDir.isSome then
        s.resumeFiles.insert (s.sess r).torrent.infoHash (s.snapshot r)
      else s.resumeFiles }

end Session

end BitRev
