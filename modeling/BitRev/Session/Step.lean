import BitRev.Session.Add

/-!
# Steps of a session

A session runs in steps between `await`s: a call of one of its operations up to its first `await`,
or a suspended task from one `await` to the next (`poll`). `Io` is what the awaited operation gave.
Peers deliver pieces and `info` dicts in between. `reached` evaluates a list of steps.
-/

namespace BitRev

inductive Act where
  | op (o : Session.Op)
  | pauseAll
  | resumeAll
  | removeTorrent (id : TorrentId) (deleteFiles : Bool)
  | tick
  /-- `Session::open` starts or ends restoring the torrents of the state directory. -/
  | restore (on : Bool)
  | addMeta (call : Nat) (m : Metainfo.TorrentMeta) (opts : AddTorrentOptions) (io : Io)
  | addMagnet (call : Nat) (m : Magnet) (opts : AddTorrentOptions)
  | addInfoHash (call : Nat) (h : Digest) (outputDir : Option Bytes) (tmp : Bytes)
  /-- The `info` dict of a pending magnet is complete. -/
  | metadata (p : Nat) (bytes : Bytes)
  /-- A peer's `Piece` message for a torrent. -/
  | piece (r : Nat) (peer : PeerAddr) (index start : Nat) (data : Bytes)
  /-- The hash of a piece returns in the handler of a peer's message. -/
  | verified (r n : Nat) (joined : Bool)
  /-- The `n`-th suspended task goes on. -/
  | poll (n : Nat) (io : Io)

namespace Session

variable (s : Session)

/-- The end of `recheck`, after `verify_existing_pieces`. -/
def recheckDone (e : Env) (r : Nat) (stayPaused : Bool) (saved : Nat → Bool) : Session :=
  let s := s.noteComplete e r
  let next := if stayPaused then .paused else s.activeState r
  let s := s.setTorrentState r (s.sess r).torrent.infoHash next
  if s.isComplete r then s.maybeMoveOnComplete r saved .recheck else s.spawnFlushOne r

def stateAfterMove (r : Nat) (previous : TorrentState) : TorrentState :=
  if previous.keptByMove then previous else s.activeState r

/-- The end of `relocate_torrent` and of its caller, after `Storage::relocate`. -/
def relocateDone (r : Nat) (previous : TorrentState) (newOutput : Bytes)
    (after : AfterMove) (storage : Storage) (err : Option String) (saved : Nat → Bool) : Session :=
  let id := (s.sess r).torrent.infoHash
  match err with
  | none =>
    let s := s.modifySess r fun t => { t with storage, outputDir := newOutput }
    ((s.setTorrentState r id (s.stateAfterMove r previous)).spawnFlushOne r).afterMove r saved after
  | some msg =>
    let s := s.modifySess r fun t => { t with storage }
    ((s.setTorrentState r id (.error msg)).emit (.error id msg)).afterMove r saved after

/-- The writer task, after `write_piece` has returned. -/
def writerWrote (e : Env) (r : Nat) (pipe : Pipeline) (ok : Bool) (saved : Nat → Bool) : Session :=
  let s := s.modifySess r fun t => { t with pipe }
  if ok then
    if s.firstComplete r then (s.noteComplete e r).spawn (.writer r .syncing)
    else (s.persist r (saved r)).spawn (.writer r .sending)
  else s.spawn (.writer r .recv)

/-- The writer task, after `sync_all` at completion. -/
def writerSynced (e : Env) (r : Nat) (saved : Nat → Bool) : Session :=
  let id := (s.sess r).torrent.infoHash
  let s := s.emit (.completed id)
  let s := s.setTorrentStateIf (s.state (s.sess r).ctl = .downloading) r id .seeding
  (s.evaluateQueue e).maybeMoveOnComplete r saved .writer

/-- A task goes on from its `await`. The session `s` no longer holds it; `none` if what it waits
for cannot come. -/
def resumeTask (x : Ext) (s : Session) (e : Env) (io : Io) : Task → Option Session
  | .addOpen c =>
    match io.err with
    | some msg => some (s.addFailed c msg)
    | none => some (s.openStorage e c)
  | .addVerify c r =>
    match io.piece with
    | some i => some ((s.modifyTable r (·.markDownloaded i)).spawn (.addVerify c r))
    | none => some (s.finishTable e c r)
  | .addListen c r initial startPaused => some (s.insertTorrent e c r initial startPaused io.saved)
  | .pendingOpen c => if io.err.isSome then some s else some (s.registerPending c)
  | .promoter p => (s.pend p).infoBytes.map fun bytes => s.promote x p bytes io
  | .recheck r stayPaused =>
    match io.piece with
    | some i => some ((s.modifyTable r (·.markDownloaded i)).spawn (.recheck r stayPaused))
    | none => some (s.recheckDone e r stayPaused io.saved)
  | .relocate r previous newOutput after =>
    ((s.sess r).storage.relocate newOutput io.relocate).map fun (storage, err) =>
      s.relocateDone r previous newOutput after storage err io.saved
  | .moveOnComplete r => some (s.maybeMoveOnComplete r io.saved .done)
  | .flush rs => some (rs.foldl (fun s r => s.persist r (io.saved r)) s)
  | .resumeTimer r =>
    if io.timerEnds then (if (s.sess r).cancelled then some s else none)
    else
      some ((s.persist r (io.saved r && (s.state (s.sess r).ctl).transferEnabled)).spawn
        (.resumeTimer r))
  | .writer r .recv =>
    ((s.sess r).pipe.step x.sha1 .recv).map fun pipe =>
      (s.modifySess r fun t => { t with pipe }).spawn (.writer r .writing)
  | .writer r .writing =>
    ((s.sess r).pipe.step x.sha1 (.wrote io.err.isNone)).map fun pipe =>
      s.writerWrote e r pipe io.err.isNone io.saved
  | .writer r .syncing => some (s.writerSynced e r io.saved)
  | .writer r .sending => some (s.spawn (.writer r .recv))

def pipeStep (x : Ext) (s : Session) (r : Nat) (a : PipelineAct) : Option Session :=
  if r < s.nextSess then
    ((s.sess r).pipe.step x.sha1 a).map fun pipe => s.modifySess r fun t => { t with pipe }
  else none

def step (x : Ext) (s : Session) : Env × Act → Option Session
  | (e, .op o) => some (s.control e o)
  | (_, .pauseAll) => some s.pauseAll
  | (e, .resumeAll) => some (s.resumeAll e)
  | (e, .removeTorrent id deleteFiles) => some (s.after (s.removeTorrent e id deleteFiles))
  | (e, .tick) => some (s.tick e)
  | (e, .restore on) => some ({ s with restoring := on }.evaluateQueue e)
  | (_, .addMeta call m opts io) => some (s.addMeta call m opts io)
  | (_, .addMagnet call m opts) => some (s.addMagnet call m opts)
  | (_, .addInfoHash call h outputDir tmp) => some (s.addInfoHash call h outputDir tmp)
  | (_, .metadata p bytes) =>
    if p < s.nextPend ∧ (s.pend p).infoBytes = none ∧
        x.sha1 bytes = (s.pend p).placeholder.infoHash then
      some (s.modifyPend p fun t => { t with infoBytes := some bytes })
    else none
  | (_, .piece r peer index start data) => s.pipeStep x r (.piece peer index start data)
  | (_, .verified r n joined) => s.pipeStep x r (.verified n joined)
  | (e, .poll n io) =>
    (s.tasks[n]?).bind fun t => resumeTask x { s with tasks := s.tasks.eraseIdx n } e io t

end Session

/-- A session that has just been made. -/
def Session.new (options : SessionOptions) (categories : Categories)
    (resumeFiles : ResumeFiles) : Session :=
  let torrent := Session.placeholder 0 []
  { options, categories, resumeFiles
    sess := fun _ =>
      { torrent, ctl := 0, storage := .openSync torrent [], outputDir := [],
        pipe := { table := .new [] }, completedAt := none, category := [], autoTmm := false,
        queuePosition := 0, forceStart := false, running := false, cancelled := false }
    pend := fun _ =>
      { ctl := 0, infoBytes := none, placeholder := torrent, slot := none, outputDir := [],
        startPaused := false, verify := false, skipChecking := false, category := [],
        autoTmm := false, sequential := false, filePriorities := [], queuePosition := 0,
        forceStart := false }
    sig := { ctl := fun _ => ⟨0, .checking, .init⟩ } }

namespace Session

/-- A bencode decoder that knows nothing, for torrents that are added from their metainfo. -/
def noExt : Ext := ⟨fun _ => .error "invalid torrent", fun _ => 0⟩

def oneByteFile (infoHash : Digest) : Metainfo.TorrentMeta :=
  .fromValidated ⟨oneByteInfo "x"⟩ infoHash []

def addOneByte (infoHash : Digest) (outputDir : String) : List (Env × Act) :=
  [({}, .addMeta 0 (oneByteFile infoHash) { outputDir := some (ascii outputDir) } {}),
    ({}, .poll 0 {}), ({}, .poll 0 {})]

def reached (ok : Session → Env × Act → Prop) [∀ s a, Decidable (ok s a)] (as : List (Env × Act))
    (h : (exec (step noExt) ok (Session.new {} ∅ ∅) as).isSome) : Session :=
  (exec (step noExt) ok (Session.new {} ∅ ∅) as).get h

end Session

end BitRev
