import BitRev.Session.Changes

/-!
# The states a step stores

Which states a step stores in the cells of the session's torrents and magnets, under which ids it
announces them, and where it evaluates the queue. `step_course`: a step stores states one by one
(`Path`), with or without an evaluation of the queue, or is one of the few that add, promote or
remove a torrent.
-/

namespace BitRev

open List Option AList

/-- The events that tell which torrents there are, and in which state. -/
def SessionEvent.isEntry : SessionEvent → Bool
  | added _ | removed _ | stateChanged _ _ => true
  | completed _ | error _ _ => false

/-- A state stored in a cell, and the id it is announced under. -/
structure Write where
  cell : Nat
  id : TorrentId
  st : TorrentState

/-- The torrent for which a task stores a state when it ends, and the state. -/
def Task.wakesTo (s : Session) (io : Io) : Task → Option (Nat × TorrentState)
  | .recheck r stayPaused =>
    if io.piece = none then some (r, if stayPaused then .paused else s.activeState r) else none
  | .relocate r previous newOutput _ =>
    if ((s.sess r).storage.relocate newOutput io.relocate).map (·.2) = some none then
      some (r, s.stateAfterMove r previous)
    else none
  | _ => none

/-- The promoter finds that it cannot add the torrent. -/
def Task.fails (x : Ext) (s : Session) (io : Io) : Task → Bool
  | .promoter p => (s.pend p).infoBytes.any fun bytes =>
    match Metainfo.TorrentMeta.fromInfoBytes x.decodeInfo x.sha1 bytes with
    | .error _ => true
    | .ok m => (Torrent.new m).isNone || (s.options.stateDir.isSome && io.err.isSome)
  | .addOpen c => c.reuse.isSome && io.err.isSome
  | _ => false

/-- The task may go on to store a state for the torrent it works on. -/
def Task.stores : Task → Bool
  | .recheck .. | .relocate .. | .moveOnComplete _ | .writer _ .syncing => true
  | _ => false

/-- The states an action stores: for the torrents and magnets of the session, and for those that a
suspended task works on. -/
def Act.Writes (s : Session) (a : Act) (w : Write) : Prop :=
  s.cellOf w.id = some w.cell ∨
    (∃ p, s.pending.lookup w.id = some p ∧ w.cell = (s.pend p).ctl) ∨
    ∃ t r, a.polled s = some t ∧ t.stores ∧ r ∈ t.sessions ∧ w.cell = (s.sess r).ctl ∧
      w.id = (s.sess r).torrent.infoHash

/-- The torrent that is about to be inserted. -/
def Task.listens : Task → Option TorrentId
  | .addListen c _ _ _ => some c.torrent.infoHash
  | _ => none

namespace Session

/-- The state `list` shows for an id. -/
def stateOf (s : Session) (id : TorrentId) : Option TorrentState := (s.cellOf id).map s.state

/-- What the events say about torrents and their states. -/
def journal (s : Session) : List SessionEvent := s.sig.events.filter (·.isEntry)

def Unforced (s : Session) : Prop :=
  (∀ y ∈ s.torrents.entries, (s.sess y.2).forceStart = false) ∧
    ∀ y ∈ s.pending.entries, (s.pend y.2).forceStart = false

instance (s : Session) : Decidable s.Unforced :=
  inferInstanceAs (Decidable ((∀ y ∈ s.torrents.entries, (s.sess y.2).forceStart = false) ∧
    ∀ y ∈ s.pending.entries, (s.pend y.2).forceStart = false))

/-- The torrents and magnets, and their cells, are the same. -/
structure Frame (s s' : Session) : Prop where
  options : s'.options = s.options
  restoring : s'.restoring = s.restoring
  torrents : s'.torrents = s.torrents
  pending : s'.pending = s.pending
  cellOf : ∀ id, s'.cellOf id = s.cellOf id
  unforced : s.Unforced → s'.Unforced

/-- States with `P` are stored and announced, one after the other; nothing else changes. -/
inductive Path (P : Write → Prop) : Session → Session → Prop
  | still {s s' : Session} : Frame s s' →
    (∀ id c, s.cellOf id = some c → s'.state c = s.state c) → s'.journal = s.journal → Path P s s'
  | write {s s' : Session} (w : Write) : P w → Frame s s' →
    (∀ id c, s.cellOf id = some c → s'.state c = if c = w.cell then w.st else s.state c) →
    s'.journal = s.journal ++
      (if s.state w.cell = w.st then [] else [.stateChanged w.id w.st]) → Path P s s'
  | trans {s s₁ s' : Session} : Path P s s₁ → Path P s₁ s' → Path P s s'

variable {x : Ext} {P Q : Write → Prop} {s s₁ s' : Session} {e : Env}

lemma Frame.rfl : Frame s s := ⟨.refl _, .refl _, .refl _, .refl _, fun _ => .refl _, id⟩

lemma Frame.trans (h : Frame s s₁) (h' : Frame s₁ s') : Frame s s' :=
  ⟨h'.options.trans h.options, h'.restoring.trans h.restoring, h'.torrents.trans h.torrents,
    h'.pending.trans h.pending, fun id => (h'.cellOf id).trans (h.cellOf id),
    fun hu => h'.unforced (h.unforced hu)⟩

lemma Frame.of (ho : s'.options = s.options) (hr : s'.restoring = s.restoring)
    (ht : s'.torrents = s.torrents) (hp : s'.pending = s.pending)
    (hs : ∀ r, (s'.sess r).ctl = (s.sess r).ctl ∧ (s'.sess r).forceStart = (s.sess r).forceStart)
    (hq : ∀ p, (s'.pend p).ctl = (s.pend p).ctl ∧ (s'.pend p).forceStart = (s.pend p).forceStart) :
    Frame s s' where
  options := ho
  restoring := hr
  torrents := ht
  pending := hp
  cellOf id := by simp only [Session.cellOf, ht, hp, (hs _).1, (hq _).1]
  unforced hu := by
    refine ⟨fun y hy => ?_, fun y hy => ?_⟩
    · rw [(hs _).2]
      exact hu.1 y (ht ▸ hy)
    · rw [(hq _).2]
      exact hu.2 y (hp ▸ hy)

namespace Path

lemma frame (h : Path P s s') : Frame s s' := by
  induction h with
  | still hf _ _ | write _ _ hf _ _ => exact hf
  | trans _ _ h h' => exact h.trans h'

lemma mono (h : Path P s s') (hpq : ∀ w, P w → Q w) : Path Q s s' := by
  induction h with
  | still hf hst hev => exact .still hf hst hev
  | write w hw hf hst hev => exact .write w (hpq w hw) hf hst hev
  | trans _ _ h h' => exact h.trans h'

lemma rfl : Path P s s := .still .rfl (fun _ _ _ => .refl _) (.refl _)

lemma of_sig (hf : Frame s s') (hctl : s'.sig.ctl = s.sig.ctl)
    (hev : s'.sig.events = s.sig.events) : Path P s s' := by
  refine .still hf (fun _ c _ => ?_) ?_
  · rw [state, state, hctl]
  · rw [journal, journal, hev]

lemma foldl {β : Type} {f : Session → β → Session} (l : List β)
    (h : ∀ s₁, Frame s s₁ → ∀ x ∈ l, Path P s₁ (f s₁ x)) : Path P s (l.foldl f s) :=
  foldlRecOn l f .rfl fun s₁ h₁ x hx => h₁.trans (h s₁ h₁.frame x hx)

end Path

/-! ## The functions operations are made of -/

variable {id : TorrentId} {st : TorrentState} {r p : Nat} {b : Bool}

/-- A state is stored and announced. -/
lemma setCell_path {c : Nat} (hP : P ⟨c, id, st⟩) :
    Path P s { s with sig := s.sig.setState c id st } := by
  refine .write ⟨c, id, st⟩ hP { Frame.rfl with } (fun _ c' _ => ?_) ?_
  · rcases eq_or_ne c' c with rfl | hne
    · rw [if_pos rfl, state, Signals.setState_ctl_self]
    · rw [if_neg hne, state, Signals.setState_ctl_ne _ _ _ hne]
      rfl
  · by_cases hst : s.state c = st
    · have hst' : (s.sig.ctl c).torrentState = st := hst
      simp [journal, Signals.setState, hst, hst']
    · have hst' : (s.sig.ctl c).torrentState ≠ st := hst
      simp [journal, Signals.setState, hst, hst', SessionEvent.isEntry]

lemma setTorrentState_path
    (hP : P ⟨(s.sess r).ctl, id, st⟩) : Path P s (s.setTorrentState r id st) :=
  setCell_path hP

lemma setPendingState_path
    (hP : P ⟨(s.pend p).ctl, id, st⟩) : Path P s (s.setPendingState p id st) :=
  setCell_path hP

lemma setTorrentStateIf_path
    (hP : b → P ⟨(s.sess r).ctl, id, st⟩) : Path P s (s.setTorrentStateIf b r id st) := by
  cases b with
  | true => exact setCell_path (hP rfl)
  | false => exact .rfl

lemma setPendingStateIf_path
    (hP : b → P ⟨(s.pend p).ctl, id, st⟩) : Path P s (s.setPendingStateIf b p id st) := by
  cases b with
  | true => exact setCell_path (hP rfl)
  | false => exact .rfl

lemma setAll_path {cells : List (Nat × TorrentId × TorrentState)}
    (hP : ∀ x ∈ cells, P ⟨x.1, x.2.1, x.2.2⟩) : Path P s (s.setAll cells) :=
  foldlRecOn (motive := fun g => Path P s { s with sig := g }) cells _ .rfl fun g hg x hx =>
    hg.trans (setCell_path (s := { s with sig := g }) (hP x hx))

lemma emitIf_path {ev : SessionEvent} (hev : ev.isEntry = false) : Path P s (s.emitIf b ev) := by
  refine .still { Frame.rfl with } (fun _ _ _ => rfl) ?_
  cases b <;> simp [journal, emitIf, hev]

lemma emit_path {ev : SessionEvent} (hev : ev.isEntry = false) : Path P s (s.emit ev) :=
  emitIf_path (b := true) hev

lemma dhtSend_path {cmd : DhtCmd} : Path P s (s.dhtSend cmd) :=
  .of_sig { Frame.rfl with } rfl rfl

lemma spawn_path {t : Task} : Path P s (s.spawn t) :=
  .of_sig { Frame.rfl with } rfl rfl

lemma spawnIf_path {t : Task} : Path P s (s.spawnIf b t) :=
  .of_sig { Frame.rfl with } rfl rfl

lemma spawnFlushOne_path : Path P s (s.spawnFlushOne r) := spawnIf_path

lemma spawnFlushResume_path : Path P s s.spawnFlushResume := spawnIf_path

lemma persist_path {ok : Bool} : Path P s (s.persist r ok) :=
  .of_sig { Frame.rfl with } rfl rfl

lemma setGlobal_path {d : DownloadState} : Path P s { s with downloadState := d } :=
  .of_sig { Frame.rfl with } rfl rfl

lemma setCategories_path {cats : Categories} : Path P s { s with categories := cats } :=
  .of_sig { Frame.rfl with } rfl rfl

lemma modifySess_path {f : TorrentSession → TorrentSession}
    (hf : (fun t => ((f t).ctl, (f t).forceStart)) = fun t => (t.ctl, t.forceStart)) :
    Path P s (s.modifySess r f) := by
  refine .of_sig (.of rfl rfl rfl rfl (fun r' => ⟨?_, ?_⟩) fun _ => ⟨rfl, rfl⟩) rfl rfl
  · exact modifySess_sess _ (fun t => congrArg (·.1) (congrFun hf t)) s r r'
  · exact modifySess_sess _ (fun t => congrArg (·.2) (congrFun hf t)) s r r'

lemma modifyPend_path {f : PendingTorrent → PendingTorrent}
    (hf : (fun t => ((f t).ctl, (f t).forceStart)) = fun t => (t.ctl, t.forceStart)) :
    Path P s (s.modifyPend p f) := by
  refine .of_sig (.of rfl rfl rfl rfl (fun _ => ⟨rfl, rfl⟩) fun p' => ⟨?_, ?_⟩) rfl rfl
  · exact modifyPend_pend _ (fun t => congrArg (·.1) (congrFun hf t)) s p p'
  · exact modifyPend_pend _ (fun t => congrArg (·.2) (congrFun hf t)) s p p'

lemma modifyTable_path {f : TorrentDownloadedState → TorrentDownloadedState} :
    Path P s (s.modifyTable r f) :=
  modifySess_path rfl

lemma noteComplete_path : Path P s (s.noteComplete e r) :=
  modifySess_path rfl

/-- A download that becomes seeding in the tick is announced. -/
lemma seedIf_path {c : Nat} (hP : P ⟨c, id, .seeding⟩) : Path P s (s.seedIf b c id) := by
  unfold seedIf
  split_ifs with hb
  · refine .write ⟨c, id, .seeding⟩ hP { Frame.rfl with } (fun _ c' _ => ?_) ?_
    · rcases eq_or_ne c' c with rfl | hne
      · rw [if_pos rfl]
        exact congrArg Ctl.torrentState (Signals.writeState_ctl_self s.sig c' .seeding)
      · rw [if_neg hne]
        exact congrArg Ctl.torrentState (Signals.writeState_ctl_ne s.sig .seeding hne)
    · rw [if_neg (by simp [hb.2])]
      simp [journal, Signals.emit, Signals.writeState, SessionEvent.isEntry]
  · exact .rfl

/-- The queue stores states of torrents and magnets of the session. -/
lemma evaluateQueue_path (hP : ∀ w, s.cellOf w.id = some w.cell → P w) :
    Path P s (s.evaluateQueue e) :=
  evaluateQueue_rec (I := fun g => Path P s { s with sig := g }) .rfl
    (fun g hg a c hc => hg.trans (setCell_path (s := { s with sig := g }) (hP ⟨c, a.1, a.2⟩ hc)))
    fun _ hg _ _ => hg.trans (.of_sig { Frame.rfl with } rfl rfl)

lemma evaluateQueueIf_path (hP : ∀ w, s.cellOf w.id = some w.cell → P w) :
    Path P s (s.evaluateQueueIf b e) := by
  cases b with
  | true => exact evaluateQueue_path hP
  | false => exact .rfl

lemma applyQueueOrder_path {ids : List TorrentId} : Path P s (s.applyQueueOrder ids) := by
  refine Path.trans (.foldl _ fun s₁ _ x _ => ?_) (.of_sig { Frame.rfl with } rfl rfl)
  have hpos : Path P s₁ (s₁.setTorrentPosition x.1 x.2) := by
    unfold setTorrentPosition
    split
    · exact modifySess_path rfl
    · exact .rfl
  refine hpos.trans ?_
  unfold setPendingPosition
  split
  · exact modifyPend_path rfl
  · exact .rfl

/-! ## The operations -/

/-- No state is stored that lets a torrent transfer. -/
def Quiet (P : Write → Prop) (w : Write) : Prop := P w ∧ w.st.transferEnabled = false

/-- States are stored, then the queue is evaluated, and no torrent becomes active after that. -/
def Evals (e : Env) (P : Write → Prop) (s s' : Session) : Prop :=
  ∃ s₁, Path P s s₁ ∧ Path (Quiet P) (s₁.evaluateQueue e) s'

lemma Evals.after (h : Path P s s₁) (h' : Evals e P s₁ s') : Evals e P s s' := by
  obtain ⟨s₂, h₂, h₃⟩ := h'
  exact ⟨s₂, h.trans h₂, h₃⟩

lemma Evals.path (h : Evals e P s s') (hown : ∀ w, s.cellOf w.id = some w.cell → P w) :
    Path P s s' := by
  obtain ⟨s₁, h₁, h₂⟩ := h
  refine (h₁.trans (evaluateQueue_path fun w hw => hown w ?_)).trans (h₂.mono fun _ hw => hw.1)
  rwa [h₁.frame.cellOf] at hw

lemma beginRelocate_path {newOutput : Bytes} {after : AfterMove}
    (hP : P ⟨(s.sess r).ctl, (s.sess r).torrent.infoHash, .moving⟩) :
    Path (Quiet P) s (s.beginRelocate r newOutput after) :=
  (setTorrentState_path ⟨hP, rfl⟩).trans spawn_path

lemma setQueuePosition_evals {pos : Nat}
    (h : s.setQueuePosition e id pos = .ok s') : Evals e P s s' := by
  unfold setQueuePosition at h
  split at h <;> cases h
  exact ⟨_, applyQueueOrder_path, spawnFlushResume_path⟩

lemma Evals.frame (h : Evals e P s s') : Frame s s' := by
  obtain ⟨s₁, h₁, h₂⟩ := h
  have hq : Path (fun _ => True) s₁ (s₁.evaluateQueue e) := evaluateQueue_path fun _ _ => trivial
  exact (h₁.frame.trans hq.frame).trans h₂.frame

lemma after_path {result : Except ControlError Session}
    (h : ∀ s', result = .ok s' → Path P s s') : Path P s (s.after result) := by
  cases result with
  | ok s' => exact h s' rfl
  | error _ => exact .rfl

section Ops

variable (hown : ∀ w, s.cellOf w.id = some w.cell → P w) {id : TorrentId}
include hown

lemma pause_evals (h : s.pause e id = .ok s') : Evals e P s s' := by
  rcases byId_ok h with ⟨r, hr, rfl⟩ | ⟨p, hr, hp, rfl⟩
  · refine ⟨_, ?_, .rfl⟩
    exact ((setTorrentState_path (hown _ (cellOf_torrent hr))).trans dhtSend_path).trans
      spawnFlushOne_path
  · refine ⟨_, ?_, .rfl⟩
    exact (setPendingState_path (hown _ (cellOf_pending hr hp))).trans dhtSend_path

lemma resume_evals (h : s.resume e id = .ok s') : Evals e P s s' := by
  rcases byId_ok h with ⟨r, hr, rfl⟩ | ⟨p, hr, hp, rfl⟩
  · refine ⟨_, ?_, dhtSend_path.trans spawnFlushOne_path⟩
    exact (setTorrentState_path (hown _ (cellOf_torrent hr))).trans setGlobal_path
  · refine ⟨_, ?_, dhtSend_path⟩
    exact (setPendingState_path (hown _ (cellOf_pending hr hp))).trans setGlobal_path

lemma afterContentChange_evals {r : Nat}
    (hr : s.torrents.lookup id = some r) : Evals e P s (s.afterContentChange e r id) := by
  refine ⟨_, ?_, spawnFlushOne_path⟩
  exact (((setTorrentStateIf_path fun _ => hown _ (cellOf_torrent hr)).trans
    noteComplete_path).trans (emitIf_path rfl)).trans spawnIf_path

/-- New priorities of a torrent, not of a magnet, lead to an evaluation of the queue. -/
lemma reprioritizes_course (h : s.Reprioritizes e id s') :
    Path (Quiet P) s s' ∨ Evals e P s s' := by
  rcases h with ⟨p, f, rfl⟩ | ⟨r, f, hr, rfl⟩
  · exact .inl (modifyPend_path rfl)
  · have h₁ : Path P s (s.modifyTable r f) := modifyTable_path
    refine .inr (.after h₁ (afterContentChange_evals (fun w hw => hown w ?_) hr))
    rwa [h₁.frame.cellOf] at hw

lemma setSavePath_path {path : Bytes} {moveFiles : Bool}
    (hhash : ∀ r, s.torrents.lookup id = some r → (s.sess r).torrent.infoHash = id)
    (h : s.setSavePath id path moveFiles = .ok s') : Path (Quiet P) s s' := by
  rcases onTorrent_ok h with ⟨p, -, h⟩ | ⟨r, hr, h⟩
  · cases h
    exact modifyPend_path rfl
  · have h₁ : Path (Quiet P) s (s.modifySess r fun t => { t with autoTmm := false }) :=
      modifySess_path rfl
    dsimp only at h
    split at h <;> cases h
    · refine h₁.trans (beginRelocate_path (hown _ ?_))
      simp only [modifySess, Function.update_self]
      rw [hhash r hr]
      exact cellOf_torrent hr
    · exact (h₁.trans (modifySess_path (by rfl))).trans spawnFlushOne_path

lemma recheck_path (h : s.recheck id = .ok s') : Path (Quiet P) s s' := by
  rcases onTorrent_ok h with ⟨p, -, h⟩ | ⟨r, hr, h⟩ <;> cases h
  exact ((setTorrentState_path ⟨hown _ (cellOf_torrent hr), rfl⟩).trans modifyTable_path).trans
    spawn_path

/-- Complete downloads seed, torrents at their limits pause, then the queue is evaluated. -/
lemma tick_evals : Evals e P s (s.tick e) := by
  have h₁ : Path P s (s.torrents.entries.foldl (fun s x => s.tickOne e x) s) := by
    refine .foldl _ fun s₁ hf y hy => ?_
    refine (noteComplete_path.trans (emitIf_path rfl)).trans (seedIf_path (hown _ ?_))
    rw [← hf.cellOf]
    exact cellOf_torrent (hf.torrents ▸ mem_entries_lookup hy)
  refine ⟨_, h₁.trans (.foldl _ fun s₂ hf id _ => ?_), .rfl⟩
  have hown' : ∀ w, s₂.cellOf w.id = some w.cell → P w := by
    intro w hw
    rw [hf.cellOf, h₁.frame.cellOf] at hw
    exact hown w hw
  exact after_path fun s' h => (pause_evals hown' h).path hown'

end Ops

/-! ## Tasks that go on -/

variable {after : AfterMove} {r : Nat} {saved : Nat → Bool} {io : Io}

lemma afterMove_path : Path P s (s.afterMove r saved after) := by
  cases after with
  | done => exact .rfl
  | recheck => exact spawnFlushOne_path
  | writer => exact persist_path.trans spawn_path

lemma maybeMoveOnComplete_path (hP : P ⟨(s.sess r).ctl, (s.sess r).torrent.infoHash, .moving⟩) :
    Path (Quiet P) s (s.maybeMoveOnComplete r saved after) := by
  unfold maybeMoveOnComplete
  split
  · exact beginRelocate_path hP
  · exact afterMove_path

/-- The torrent seeds, the queue is evaluated, and its files may begin to move. -/
lemma writerSynced_evals (hP : ∀ st, P ⟨(s.sess r).ctl, (s.sess r).torrent.infoHash, st⟩) :
    Evals e P s (s.writerSynced e r saved) := by
  let s₁ := s.emit (.completed (s.sess r).torrent.infoHash)
  let s₂ := s₁.setTorrentStateIf (s₁.state (s₁.sess r).ctl = .downloading) r
    (s.sess r).torrent.infoHash .seeding
  have h₁ : Path P s s₁ := emit_path rfl
  have h₂ : Path P s₁ s₂ := setTorrentStateIf_path fun _ => hP .seeding
  exact ⟨s₂, h₁.trans h₂, maybeMoveOnComplete_path (hP .moving)⟩

lemma writerWrote_path {pipe : Pipeline} {ok : Bool} :
    Path P s (s.writerWrote e r pipe ok saved) := by
  have h₁ : Path P s (s.modifySess r fun t => { t with pipe }) :=
    modifySess_path rfl
  unfold writerWrote
  split
  · dsimp only
    split
    · exact (h₁.trans noteComplete_path).trans spawn_path
    · exact (h₁.trans persist_path).trans spawn_path
  · exact h₁.trans spawn_path

/-- What a task that ends stores for its torrent. -/
def Wakes (s : Session) (r : Nat) (st : TorrentState) (w : Write) : Prop :=
  w.cell = (s.sess r).ctl ∧ w.id = (s.sess r).torrent.infoHash ∧
    (w.st.transferEnabled = false ∨ w.st = st)

lemma activeState_congr (h : (s'.sess r).pipe = (s.sess r).pipe) :
    s'.activeState r = s.activeState r := by
  unfold activeState isComplete
  rw [h]

/-- A recheck that ends leaves its torrent paused, or active, or moving. -/
lemma recheckDone_path {stayPaused : Bool} :
    Path (s.Wakes r (if stayPaused then .paused else s.activeState r)) s
      (s.recheckDone e r stayPaused saved) := by
  have hsess : ((s.noteComplete e r).sess r).ctl = (s.sess r).ctl ∧
      ((s.noteComplete e r).sess r).torrent = (s.sess r).torrent ∧
      ((s.noteComplete e r).sess r).pipe = (s.sess r).pipe := by
    simp [noteComplete, modifySess]
  rw [← activeState_congr hsess.2.2]
  unfold recheckDone
  extract_lets s₁ next s₂
  have h₁ : Path (s.Wakes r next) s s₁ := noteComplete_path
  have h₂ : Path (s.Wakes r next) s₁ s₂ :=
    setTorrentState_path ⟨hsess.1, congrArg Torrent.infoHash hsess.2.1, .inr rfl⟩
  by_cases hc : s₂.isComplete r
  · rw [if_pos hc]
    refine (h₁.trans h₂).trans ((maybeMoveOnComplete_path ?_).mono fun _ hw => hw.1)
    exact ⟨hsess.1, congrArg Torrent.infoHash hsess.2.1, .inl rfl⟩
  · rw [if_neg hc]
    exact (h₁.trans h₂).trans spawnFlushOne_path

/-- A move that succeeds ends in `stateAfterMove`. -/
lemma relocateDone_path {previous : TorrentState} {newOutput : Bytes} {storage : Storage} :
    Path (s.Wakes r (s.stateAfterMove r previous)) s
      (s.relocateDone r previous newOutput after storage none saved) := by
  unfold relocateDone
  extract_lets id s₁
  have h₁ : Path (s.Wakes r (s.stateAfterMove r previous)) s s₁ :=
    modifySess_path rfl
  have hsess : (s₁.sess r).ctl = (s.sess r).ctl ∧ (s₁.sess r).pipe = (s.sess r).pipe := by
    simp [s₁, modifySess]
  refine (h₁.trans (setTorrentState_path ⟨hsess.1, rfl, .inr ?_⟩)).trans
    (spawnFlushOne_path.trans afterMove_path)
  rw [stateAfterMove, stateAfterMove, activeState_congr hsess.2]

lemma relocateFailed_path {previous : TorrentState} {newOutput : Bytes} {storage : Storage}
    {msg : String} (hP : P ⟨(s.sess r).ctl, (s.sess r).torrent.infoHash, .error msg⟩) :
    Path (Quiet P) s (s.relocateDone r previous newOutput after storage (some msg) saved) := by
  let s₁ := s.modifySess r fun t => { t with storage }
  let s₂ := s₁.setTorrentState r (s.sess r).torrent.infoHash (.error msg)
  have h₁ : Path (Quiet P) s s₁ := modifySess_path rfl
  have hctl : (s₁.sess r).ctl = (s.sess r).ctl := by simp [s₁, modifySess]
  have h₂ : Path (Quiet P) s₁ s₂ := setTorrentState_path ⟨hctl ▸ hP, rfl⟩
  have h₃ : Path (Quiet P) s₂ (s₂.emit (.error (s.sess r).torrent.infoHash msg)) := emit_path rfl
  exact ((h₁.trans h₂).trans h₃).trans afterMove_path

lemma allocSession_path (hwf : s.Wf x) (c : AddCall) : Path P s (s.allocSession c) := by
  refine .still ⟨rfl, rfl, rfl, rfl, fun id => StepCase.allocSession_cellOf hwf c id, fun hu => ?_⟩
    (fun id k hk => ?_) rfl
  · refine ⟨fun y hy => ?_, hu.2⟩
    have hlt := (hwf.torrents y.1 y.2 (mem_entries_lookup hy)).1
    rw [allocSession_sess c (Nat.ne_of_lt hlt)]
    exact hu.1 y hy
  · exact congrArg Ctl.torrentState (allocSession_ctl c (hwf.cellOf_lt hk))

/-! ## The cells of a torrent that comes or goes -/

/-- A torrent that is inserted takes the place of what had its id. -/
lemma place_cellOf (s : Session) (c : AddCall) (r : Nat) (initial : TorrentState)
    (i : TorrentId) : (s.place c r initial).cellOf i =
      if i = c.torrent.infoHash then some (s.sess r).ctl else s.cellOf i := by
  split_ifs with heq
  · subst heq
    rw [cellOf_torrent (lookup_insert ..), (place_sess ..).2.1]
  · refine StepCase.cellOf_congr (lookup_insert_ne heq) ?_
      (fun r' _ => (place_sess ..).2.1) fun _ _ => rfl
    simp only [place]
    split
    · exact lookup_erase_ne heq
    · rfl

lemma initTorrent_state (s : Session) (c : AddCall) (r k : Nat) :
    (s.initTorrent c r).state k = if k = (s.sess r).ctl then s.initialState c r else s.state k := by
  split_ifs with heq
  · simp [state, initTorrent, Signals.initState, heq]
  · simp [state, initTorrent, Signals.initState, heq]

lemma insertTorrent_placed (s : Session) (e : Env) (c : AddCall) (r : Nat)
    (initial : TorrentState) (startPaused : Bool) (saved : Nat → Bool) :
    ∃ s₁, Frame (s.place c r initial) s₁ ∧ (∀ k, s₁.state k = s.state k) ∧
      s₁.journal = s.journal ++
        [.added c.torrent.infoHash, .stateChanged c.torrent.infoHash initial] ∧
      Path P (s₁.evaluateQueueIf (!startPaused) e)
        (s.insertTorrent e c r initial startPaused saved) := by
  unfold insertTorrent
  extract_lets id s₁ s₂ s₃
  refine ⟨s₃, .of rfl rfl rfl rfl (fun _ => ⟨rfl, rfl⟩) fun _ => ⟨rfl, rfl⟩, fun _ => rfl, ?_,
    spawnIf_path⟩
  simp [s₃, s₂, s₁, id, journal, emit, Signals.emit, wakeGlobal, spawnIf, persist, place, spawn,
    modifySess, SessionEvent.isEntry]

/-- A torrent that is removed takes no other with it. -/
lemma takeOut_cellOf (s : Session) (id : TorrentId) (deleteFiles : Bool) (i : TorrentId) :
    (s.takeOut id deleteFiles).cellOf i = if i = id then none else s.cellOf i := by
  split_ifs with heq
  · subst heq
    have ht : (s.takeOut i deleteFiles).torrents.lookup i = none := lookup_erase ..
    have hp : (s.takeOut i deleteFiles).pending.lookup i = none := lookup_erase ..
    rw [cellOf, ht, hp]
    rfl
  · refine StepCase.cellOf_congr (lookup_erase_ne heq) (lookup_erase_ne heq)
      (fun r' _ => ?_) fun _ _ => rfl
    simp only [takeOut]
    split <;> rfl

/-- A magnet gets a cell of its own, which a torrent with its id hides. -/
lemma registerPending_cellOf (hwf : s.Wf x) (c : PendingCall) (i : TorrentId) :
    (s.registerPending c).cellOf i =
      if i = c.infoHash ∧ s.torrents.lookup i = none then some s.nextCtl else s.cellOf i := by
  have hold : ∀ p, s.pending.lookup i = some p →
      ((s.registerPending c).pend p).ctl = (s.pend p).ctl := by
    intro p hp
    have hlt := (hwf.pending i p hp).1
    simp [registerPending, Nat.ne_of_lt hlt]
  split_ifs with h
  · obtain ⟨rfl, hnone⟩ := h
    have hp : (s.registerPending c).pending.lookup c.infoHash = some s.nextPend :=
      lookup_insert ..
    have hnone' : (s.registerPending c).torrents.lookup c.infoHash = none := hnone
    rw [cellOf_pending hnone' hp]
    simp [registerPending]
  · cases ht : s.torrents.lookup i with
    | some r =>
      have ht' : (s.registerPending c).torrents.lookup i = some r := ht
      rw [cellOf_torrent ht, cellOf_torrent ht']
      rfl
    | none =>
      have hne : i ≠ c.infoHash := fun heq => h ⟨heq, ht⟩
      exact StepCase.cellOf_congr rfl (lookup_insert_ne hne) (fun _ _ => rfl) hold

lemma registerPending_state (hwf : s.Wf x) (c : PendingCall) {i : TorrentId} {k : Nat}
    (hk : s.cellOf i = some k) : (s.registerPending c).state k = s.state k := by
  have hne : k ≠ s.nextCtl := Nat.ne_of_lt (hwf.cellOf_lt hk)
  simp [state, registerPending, hne]

/-! ## Steps -/

/-- How a step stores states. -/
inductive Course (x : Ext) (s : Session) (e : Env) : Act → Session → Prop
  | quiet {a : Act} {s' : Session} : Path (Quiet (a.Writes s)) (s.before a) s' → Course x s e a s'
  | evals {a : Act} {s' : Session} : Evals e (a.Writes s) (s.before a) s' → Course x s e a s'
  /-- A torrent is force-started, apart from that as `evals`. -/
  | forced {id : TorrentId} {s₁ s' : Session} : s₁.options = s.options →
    s₁.restoring = s.restoring → s₁.torrents = s.torrents → s₁.pending = s.pending →
    (∀ i, s₁.cellOf i = s.cellOf i) → s₁.sig = s.sig →
    Evals e ((Act.op (.setForceStart id true)).Writes s) s₁ s' →
    Course x s e (.op (.setForceStart id true)) s'
  | woken {n : Nat} {io : Io} {t : Task} {r : Nat} {st : TorrentState} {s' : Session} :
    s.tasks[n]? = some t → r ∈ t.sessions → t.wakesTo s io = some (r, st) →
    Path (s.Wakes r st) (s.without n) s' → Course x s e (.poll n io) s'
  | restored (on : Bool) : Course x s e (.restore on) ({ s with restoring := on }.evaluateQueue e)
  | removed {id : TorrentId} {deleteFiles : Bool} : id ∈ s.torrents ∨ id ∈ s.pending →
    Course x s e (.removeTorrent id deleteFiles)
      ((((s.takeOut id deleteFiles).dhtSend (.removeTorrent id)).emit (.removed id)).evaluateQueue e)
  | failed {n : Nat} {io : Io} {t : Task} {p : Nat} (msg : String) {s₁ : Session} :
    s.tasks[n]? = some t → t.fails x s io → Path (fun _ => False) (s.without n) s₁ →
    Course x s e (.poll n io) (s₁.promotionFailed p msg)
  | finished {n : Nat} {io : Io} {t : Task} {c : AddCall} {r : Nat} {s₁ : Session} :
    s.tasks[n]? = some t → t.adding = some c → Path (fun _ => False) (s.without n) s₁ →
    s₁.Wf x → Constructed s₁ c r →
    Course x s e (.poll n io) ((s₁.initTorrent c r).spawn
      (.addListen c r (s₁.initialState c r) (s₁.startsPaused c)))
  | inserted {n : Nat} {io : Io} {c : AddCall} {r : Nat} {initial : TorrentState}
      {startPaused : Bool} : s.tasks[n]? = some (.addListen c r initial startPaused) →
    Course x s e (.poll n io) ((s.without n).insertTorrent e c r initial startPaused io.saved)
  | registered {n : Nat} {io : Io} {c : PendingCall} : s.tasks[n]? = some (.pendingOpen c) →
    io.err = none → Course x s e (.poll n io) ((s.without n).registerPending c)

lemma before_frame (s : Session) (a : Act) : Frame s (s.before a) := by
  cases a <;> exact .of rfl rfl rfl rfl (fun _ => ⟨rfl, rfl⟩) fun _ => ⟨rfl, rfl⟩

lemma writes_own (a : Act) (w : Write) (h : s.cellOf w.id = some w.cell) : a.Writes s w := .inl h

lemma after_course {a : Act} {result : Except ControlError Session} (hb : s.before a = s)
    (h : ∀ s', result = .ok s' → Path (Quiet (a.Writes s)) s s' ∨ Evals e (a.Writes s) s s') :
    Course x s e a (s.after result) := by
  cases result with
  | error _ =>
    refine .quiet ?_
    rw [hb]
    exact .rfl
  | ok s' =>
    rcases h s' rfl with h | h
    · refine .quiet ?_
      rwa [hb]
    · refine .evals ?_
      rwa [hb]

/-- Only the force flags differ. -/
lemma forced_course {enabled : Bool} (s₁ : Session) {s' : Session}
    (hs : s₁ = { s with sess := s₁.sess, pend := s₁.pend }) (hcell : ∀ i, s₁.cellOf i = s.cellOf i)
    (hforce : enabled = false → s.Unforced → s₁.Unforced)
    (h : Evals e ((Act.op (.setForceStart id enabled)).Writes s) s₁ s') :
    Course x s e (.op (.setForceStart id enabled)) s' := by
  have hopt : s₁.options = s.options := by rw [hs]
  have hres : s₁.restoring = s.restoring := by rw [hs]
  have htor : s₁.torrents = s.torrents := by rw [hs]
  have hpen : s₁.pending = s.pending := by rw [hs]
  have hsig : s₁.sig = s.sig := by rw [hs]
  cases enabled with
  | true => exact .forced hopt hres htor hpen hcell hsig h
  | false =>
    refine .evals (.after (.of_sig ⟨hopt, hres, htor, hpen, hcell, hforce rfl⟩ ?_ ?_) h)
    · rw [hsig]
      rfl
    · rw [hsig]
      rfl

lemma setForceStart_course {enabled : Bool} :
    Course x s e (.op (.setForceStart id enabled)) (s.after (s.setForceStart e id enabled)) := by
  cases h : s.setForceStart e id enabled with
  | error _ => exact .quiet .rfl
  | ok s' =>
    have hown := writes_own (s := s) (.op (.setForceStart id enabled))
    rcases byId_ok h with ⟨r, hr, rfl⟩ | ⟨p, hr, hp, rfl⟩
    · let s₁ := s.modifySess r fun t => { t with forceStart := enabled }
      have hctl : ∀ r', (s₁.sess r').ctl = (s.sess r').ctl :=
        modifySess_sess (·.ctl) (by intro; rfl) s r
      have hcell : ∀ i, s₁.cellOf i = s.cellOf i := fun i =>
        StepCase.cellOf_congr rfl rfl (fun r' _ => hctl r') fun _ _ => rfl
      refine forced_course s₁ rfl hcell (fun he hu => ⟨fun y hy => ?_, hu.2⟩)
        ⟨_, setTorrentStateIf_path fun _ => hown _ ?_, spawnFlushOne_path⟩
      · rcases eq_or_ne y.2 r with heq | hne
        · simp [s₁, modifySess, heq, he]
        · simp only [s₁, modifySess, Function.update_of_ne hne]
          exact hu.1 y hy
      · rw [hctl]
        exact cellOf_torrent hr
    · let s₁ := s.modifyPend p fun t => { t with forceStart := enabled }
      have hctl : ∀ p', (s₁.pend p').ctl = (s.pend p').ctl :=
        modifyPend_pend (·.ctl) (by intro; rfl) s p
      have hcell : ∀ i, s₁.cellOf i = s.cellOf i := fun i =>
        StepCase.cellOf_congr rfl rfl (fun _ _ => rfl) fun p' _ => hctl p'
      refine forced_course s₁ rfl hcell (fun he hu => ⟨hu.1, fun y hy => ?_⟩)
        ⟨_, setPendingStateIf_path fun _ => hown _ ?_, .rfl⟩
      · rcases eq_or_ne y.2 p with heq | hne
        · simp [s₁, modifyPend, heq, he]
        · simp only [s₁, modifyPend, Function.update_of_ne hne]
          exact hu.2 y hy
      · rw [hctl]
        exact cellOf_pending hr hp

lemma Retouches.path (h : Retouches s s') : Path P s s' := by
  cases h with
  | categories => exact setCategories_path
  | flush => exact spawnFlushOne_path
  | pend => exact setCategories_path.trans (modifyPend_path rfl)
  | sess => exact (setCategories_path.trans (modifySess_path (by rfl))).trans spawnFlushOne_path

lemma control_course (hwf : s.Wf x) (o : Op) : Course x s e (.op o) (s.control e o) := by
  have hown := writes_own (s := s) (.op o)
  cases o with
  | pause id => exact after_course rfl fun s' h => .inr (pause_evals hown h)
  | resume id => exact after_course rfl fun s' h => .inr (resume_evals hown h)
  | setForceStart id enabled => exact setForceStart_course
  | setFilePriority id i prio =>
    exact after_course rfl fun s' h => reprioritizes_course hown (setFilePriority_ok h)
  | setFilePriorities id prios =>
    exact after_course rfl fun s' h => reprioritizes_course hown (setFilePriorities_ok h)
  | setSavePath id path moveFiles =>
    refine after_course rfl fun s' h => .inl (setSavePath_path hown (fun r hr => ?_) h)
    exact (hwf.torrents id r hr).2.1
  | recheck id => exact after_course rfl fun s' h => .inl (recheck_path hown h)
  | setSequential | withTags | setShareLimits | setCategory | createCategory | editCategory =>
    exact .quiet (control_retouches rfl).path
  | removeCategory name =>
    refine after_course rfl fun s' h => .inl ?_
    unfold removeCategory at h
    split at h <;> cases h
    refine .of_sig (.of rfl rfl rfl rfl (fun r => ?_) fun p => ?_) rfl rfl
    · dsimp only
      split <;> exact ⟨rfl, rfl⟩
    · dsimp only
      split <;> exact ⟨rfl, rfl⟩
  | setQueuePosition id pos => exact after_course rfl fun s' h => .inr (setQueuePosition_evals h)

lemma beginAdd_path (m : Metainfo.TorrentMeta) (opts : AddTorrentOptions)
    (reuse call : Option Nat) (io : Io) :
    Path P s (s.beginAdd m opts reuse call io).1 ∧
      ((s.beginAdd m opts reuse call io).2.isSome →
        ((Torrent.new m).isNone || (s.options.stateDir.isSome && io.err.isSome))) := by
  unfold beginAdd
  cases hnew : Torrent.new m with
  | none => exact ⟨.rfl, fun _ => rfl⟩
  | some torrent =>
    dsimp only
    split
    · rename_i msg hmsg
      refine ⟨setCategories_path, fun _ => ?_⟩
      split_ifs at hmsg with hdir
      have hdir' : s.options.stateDir.isSome := hdir
      simp [hdir', hmsg]
    · exact ⟨setCategories_path.trans spawn_path, nofun⟩

lemma promote_course {n p : Nat} {bytes : Bytes}
    (ht : s.tasks[n]? = some (.promoter p)) (hb : (s.pend p).infoBytes = some bytes) :
    Course x s e (.poll n io) (promote x (s.without n) p bytes io) := by
  unfold promote
  cases hm : Metainfo.TorrentMeta.fromInfoBytes x.decodeInfo x.sha1 bytes with
  | error err => exact .failed err.message ht (by simp [Task.fails, hb, hm]) .rfl
  | ok m =>
    dsimp only
    split
    · rename_i s₁ heq
      have hpath := (beginAdd_path (s := s.without n) (P := Quiet ((Act.poll n io).Writes s)) m
        (promoterOptions (s.pend p)) (some p) none io).1
      have heq' : ((s.without n).beginAdd m (promoterOptions (s.pend p)) (some p) none io).1 =
        s₁ := congrArg Prod.fst heq
      rw [heq'] at hpath
      exact .quiet hpath
    · rename_i s₁ msg heq
      obtain ⟨hpath, hfail⟩ := beginAdd_path (s := s.without n) (P := fun _ => False) m
        (promoterOptions (s.pend p)) (some p) none io
      have heq' : (s.without n).beginAdd m (promoterOptions (s.pend p)) (some p) none io =
        (s₁, some msg) := heq
      rw [heq'] at hpath hfail
      refine .failed msg ht ?_ hpath
      have hf : ((Torrent.new m).isNone || (s.options.stateDir.isSome && io.err.isSome)) :=
        hfail rfl
      simp only [Task.fails, hb, any_some, hm]
      exact hf

lemma openStorage_course (hwf : s.Wf x) {n : Nat} {c : AddCall}
    (ht : s.tasks[n]? = some (.addOpen c)) :
    Course x s e (.poll n io) ((s.without n).openStorage e c) := by
  obtain ⟨hwf', hcon⟩ := hwf.opened ht
  have halloc : ∀ {P : Write → Prop}, Path P (s.without n) ((s.without n).allocSession c) :=
    allocSession_path (hwf.without n) c
  have hdone : ∀ s₁, Ctrl .none ((s.without n).allocSession c) s₁ →
      Path (fun _ => False) ((s.without n).allocSession c) s₁ →
      Course x s e (.poll n io) ((s₁.initTorrent c s.nextSess).spawn
        (.addListen c s.nextSess (s₁.initialState c s.nextSess) (s₁.startsPaused c))) :=
    fun s₁ hc hp => .finished ht rfl (halloc.trans hp) (hwf'.ctrl hc fun _ hr => hr.elim)
      (hcon.ctrl hc)
  unfold openStorage
  split
  · exact hdone _ (modifyTable_ctrl.trans noteComplete_ctrl)
      (modifyTable_path.trans noteComplete_path)
  split
  · dsimp only
    split
    · exact hdone _ (modifyTable_ctrl.trans noteComplete_ctrl)
        (modifyTable_path.trans noteComplete_path)
    · exact .quiet (halloc.trans spawn_path)
  · exact hdone _ noteComplete_ctrl noteComplete_path

lemma resumeTask_course (hwf : s.Wf x) {n : Nat} {t : Task} (ht : s.tasks[n]? = some t)
    (h : resumeTask x (s.without n) e io t = some s') : Course x s e (.poll n io) s' := by
  -- what the task stores for the session object it works on
  have htask : t.stores → ∀ r ∈ t.sessions, ∀ st, (Act.poll n io).Writes s
      ⟨(s.sess r).ctl, (s.sess r).torrent.infoHash, st⟩ := fun hstores r hr _ =>
    .inr (.inr ⟨t, r, by simp only [Act.polled, ht], hstores, hr, rfl, rfl⟩)
  cases t with
  | addOpen c =>
    simp only [resumeTask] at h
    split at h <;> cases h
    · rename_i msg hmsg
      unfold addFailed
      split
      · rename_i p hp
        exact .failed msg ht (by simp [Task.fails, hp, hmsg]) .rfl
      · exact .quiet .rfl
    · exact openStorage_course hwf ht
  | addVerify c r =>
    simp only [resumeTask] at h
    split at h <;> cases h
    · exact .quiet (modifyTable_path.trans spawn_path)
    · have hc : Ctrl .none (s.without n) ((s.without n).noteComplete e r) := noteComplete_ctrl
      exact .finished ht rfl noteComplete_path ((hwf.without n).ctrl hc fun _ hr => hr.elim)
        ((hwf.constructed ht rfl rfl).ctrl hc)
  | addListen c r initial startPaused =>
    cases h
    exact .inserted ht
  | pendingOpen c =>
    simp only [resumeTask] at h
    split at h <;> cases h
    · exact .quiet .rfl
    · rename_i hio
      exact .registered ht (by simpa using hio)
  | promoter p =>
    obtain ⟨bytes, hb, rfl⟩ := map_eq_some_iff.1 h
    exact promote_course ht hb
  | recheck r stayPaused =>
    simp only [resumeTask] at h
    split at h <;> cases h
    · exact .quiet (modifyTable_path.trans spawn_path)
    · rename_i hp
      refine .woken ht (by simp) ?_ (recheckDone_path (s := s.without n))
      simp only [Task.wakesTo, hp, if_true]
      rfl
  | relocate r previous newOutput after =>
    obtain ⟨⟨storage, err⟩, hst, rfl⟩ := map_eq_some_iff.1 h
    cases err with
    | none =>
      refine .woken ht (by simp) ?_ (relocateDone_path (s := s.without n))
      have hst' : (s.sess r).storage.relocate newOutput io.relocate = some (storage, none) := hst
      simp only [Task.wakesTo, hst', map_some, if_true]
      rfl
    | some msg =>
      exact .quiet (relocateFailed_path (s := s.without n) (htask rfl r (by simp) _))
  | moveOnComplete r =>
    cases h
    exact .quiet (maybeMoveOnComplete_path (s := s.without n)
      (htask rfl r (by simp) _))
  | flush rs =>
    cases h
    exact .quiet (.foldl _ fun _ _ _ _ => persist_path)
  | resumeTimer r =>
    simp only [resumeTask] at h
    split at h
    · split at h <;> cases h
      exact .quiet .rfl
    · cases h
      exact .quiet (persist_path.trans spawn_path)
  | writer r pc =>
    cases pc with
    | recv =>
      obtain ⟨pipe, -, rfl⟩ := map_eq_some_iff.1 h
      exact .quiet ((modifySess_path (by rfl)).trans spawn_path)
    | writing =>
      obtain ⟨pipe, -, rfl⟩ := map_eq_some_iff.1 h
      exact .quiet writerWrote_path
    | syncing =>
      cases h
      exact .evals (writerSynced_evals (s := s.without n) fun st =>
        htask rfl r (by simp) st)
    | sending =>
      cases h
      exact .quiet spawn_path

lemma pipeStep_path {a : PipelineAct} (h : s.pipeStep x r a = some s') : Path P s s' := by
  unfold pipeStep at h
  split_ifs at h
  obtain ⟨pipe, -, rfl⟩ := map_eq_some_iff.1 h
  exact modifySess_path rfl

lemma step_course {a : Act} (hwf : s.Wf x) (h : s.step x (e, a) = some s') : Course x s e a s' := by
  have hown := writes_own (s := s) a
  cases a with
  | op o =>
    cases h
    exact control_course hwf o
  | pauseAll =>
    cases h
    refine .quiet (((setGlobal_path.trans (setAll_path (forall_mem_append.2 ⟨forall_mem_map.2
      fun z hz => ?_, forall_mem_map.2 fun z hz => ?_⟩))).trans dhtSend_path).trans
      spawnFlushResume_path)
    · exact ⟨hown _ (cellOf_torrent (mem_entries_lookup hz)), rfl⟩
    · exact ⟨.inr (.inl ⟨z.2, mem_entries_lookup hz, rfl⟩), rfl⟩
  | resumeAll =>
    cases h
    refine .evals ⟨_, setGlobal_path.trans (setAll_path (forall_mem_append.2 ⟨forall_mem_map.2
      fun z hz => ?_, forall_mem_map.2 fun z hz => ?_⟩)), dhtSend_path.trans spawnFlushResume_path⟩
    · exact hown _ (cellOf_torrent (mem_entries_lookup hz))
    · exact .inr (.inl ⟨z.2, mem_entries_lookup hz, rfl⟩)
  | removeTorrent id deleteFiles =>
    cases h
    unfold removeTorrent
    split_ifs with hid
    · exact .removed hid
    · exact .quiet .rfl
  | tick =>
    cases h
    exact .evals (tick_evals hown)
  | restore on =>
    cases h
    exact .restored on
  | addMeta call m opts io =>
    cases h
    refine .quiet ?_
    unfold addMeta
    split
    · exact .of_sig { Frame.rfl with } rfl rfl
    · exact (beginAdd_path m opts none (some call) io).1
  | addMagnet call m opts =>
    cases h
    refine .quiet ?_
    unfold addMagnet
    split
    · exact .of_sig { Frame.rfl with } rfl rfl
    · exact setCategories_path.trans spawn_path
  | addInfoHash call hash outputDir tmp =>
    cases h
    refine .quiet ?_
    unfold addInfoHash
    split
    · exact .of_sig { Frame.rfl with } rfl rfl
    · exact spawn_path
  | metadata p bytes =>
    simp only [step] at h
    split at h <;> cases h
    exact .quiet (modifyPend_path rfl)
  | piece r peer index start data | verified r n joined => exact .quiet (pipeStep_path h)
  | poll n io =>
    obtain ⟨t, ht, h⟩ := bind_eq_some_iff.1 h
    exact resumeTask_course hwf ht h

/-- A step inserts a torrent, or no insertion was due. -/
lemma step_listen {a : Act} (h : s.step x (e, a) = some s') :
    (∃ n io c r initial startPaused, a = .poll n io ∧
      s.tasks[n]? = some (.addListen c r initial startPaused) ∧
      s' = (s.without n).insertTorrent e c r initial startPaused io.saved) ∨
    ∀ t, a.polled s = some t → t.listens = none := by
  refine or_iff_not_imp_left.2 fun hno t ht => ?_
  cases t with
  | addListen c r initial startPaused =>
    cases a with
    | poll n io =>
      simp only [step, show s.tasks[n]? = _ from ht, bind_some, resumeTask, some.injEq] at h
      exact absurd ⟨n, io, c, r, initial, startPaused, rfl, ht, h.symm⟩ hno
    | _ => cases ht
  | _ => rfl

end Session

end BitRev
