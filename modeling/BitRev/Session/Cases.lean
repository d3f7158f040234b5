import BitRev.Session.Effects

/-!
# What a step does

`step_cases`: a step stays within the scope of its action (`Ctrl`), possibly to suspend a task
that checks, moves, writes or adds a torrent (`Suspends`), or is one of the few steps that
change what the session holds: a removal, the arrival of an `info` dict, and those of the steps in
which torrents and magnets are added that make or insert them. What the invariants of a session
say about a step is derived from this.
-/

namespace BitRev

namespace Task

/-- The session a task checks or moves. -/
def busy : Task → Option Nat
  | .recheck r _ | .relocate r _ _ _ => some r
  | _ => none

/-- The cells a task may make active when it goes on. -/
def wakes (s : Session) (io : Io) : Task → Nat → Prop
  | .recheck r stayPaused, c => io.piece = none ∧ stayPaused = false ∧ (s.sess r).ctl = c
  | .relocate r previous newOutput _, c =>
    previous.keptByMove = false ∧ (s.sess r).ctl = c ∧
      ∃ storage, (s.sess r).storage.relocate newOutput io.relocate = some (storage, none)
  | _, _ => False

def moves (s : Session) (io : Io) : Task → Nat → Storage × Bytes → Prop
  | .relocate r _ newOutput _, r', pl => r' = r ∧
    ∃ err, (s.sess r).storage.relocate newOutput io.relocate = some (pl.1, err) ∧
      pl.2 = if err = none then newOutput else (s.sess r).outputDir
  | _, _, _ => False

/-- The `add_torrent_meta` a task is in. -/
def adding : Task → Option AddCall
  | .addOpen c | .addVerify c _ | .addListen c _ _ _ => some c
  | _ => none

/-- The session object a task is making. -/
def constructs : Task → Option Nat
  | .addVerify _ r | .addListen _ r _ _ => some r
  | _ => none

lemma constructs_adding {t : Task} {r : Nat} (h : t.constructs = some r) :
    ∃ c, t.adding = some c := by
  cases t <;> first | exact ⟨_, rfl⟩ | cases h

/-- The session a task writes pieces for, once a move is over. -/
def writes : Task → Option Nat
  | .writer r _ | .relocate r _ _ .writer => some r
  | _ => none

/-- The sessions a task may write the resume file of when it goes on. -/
def saves (s : Session) (io : Io) : Task → List Nat
  | .relocate r _ _ .writer | .writer r .writing | .writer r .syncing => [r].filter io.saved
  | .flush rs => rs.filter io.saved
  | .resumeTimer r =>
    if !io.timerEnds && (s.state (s.sess r).ctl).transferEnabled then [r].filter io.saved else []
  | _ => []

def scope (s : Session) (io : Io) (t : Task) : Scope :=
  { refs := fun r => r ∈ t.sessions, saves := fun r => r ∈ t.saves s io, wakes := t.wakes s io,
    moves := t.moves s io }

end Task

/-- A step within the scope that ends in the task `t`, with the torrent idle if `t` checks or
moves it. -/
def Suspends (al : Scope) (t : Task) (s s' : Session) : Prop :=
  ∃ s₁, Ctrl al s s₁ ∧ s' = s₁.spawn t ∧
    ∀ r, t.busy = some r → (s₁.sig.ctl (s₁.sess r).ctl).idle

lemma Suspends.after {al : Scope} {t : Task} {s s₁ s' : Session} (h : Ctrl al s s₁)
    (h' : Suspends al t s₁ s') : Suspends al t s s' := by
  obtain ⟨s₂, hc, heq, hb⟩ := h'
  exact ⟨s₂, h.trans hc, heq, hb⟩

namespace Session

variable {al : Scope} {s : Session} {e : Env} {r : Nat}

/-- A task that neither checks nor moves a torrent is suspended. -/
lemma spawn_suspends {t : Task} (h : t.busy = none) : Suspends al t s (s.spawn t) :=
  ⟨s, .rfl, rfl, by simp [h]⟩

lemma beginRelocate_suspends (r : Nat) (newOutput : Bytes) (after : AfterMove) :
    Suspends al (.relocate r (s.state (s.sess r).ctl) newOutput after) s
      (s.beginRelocate r newOutput after) := by
  refine ⟨_, setTorrentState_ctrl (.inl rfl), rfl, fun r' hr' => ?_⟩
  cases hr'
  exact setState_self_idle s.sig (s.sess r).ctl _ rfl

lemma recheck_suspends {id : TorrentId} {s' : Session} (h : s.recheck id = .ok s') :
    ∃ r, s.torrents.lookup id = some r ∧
      Suspends al (.recheck r (s.state (s.sess r).ctl = .paused)) s s' := by
  rcases onTorrent_ok h with ⟨p, -, h⟩ | ⟨r, hr, h⟩ <;> cases h
  have h₁ : Ctrl al s (s.setTorrentState r id .checking) := setTorrentState_ctrl (.inl rfl)
  have h₂ : Ctrl al (s.setTorrentState r id .checking)
    ((s.setTorrentState r id .checking).modifyTable r (·.clearAllDownloaded)) := modifyTable_ctrl
  refine ⟨r, hr, _, h₁.trans h₂, rfl, fun r' hr' => ?_⟩
  cases hr'
  rw [h₂.keeps.ctl]
  exact setState_self_idle s.sig (s.sess r).ctl id rfl

lemma setSavePath_cases (hin : ∀ id r, s.torrents.lookup id = some r → al.refs r)
    {id : TorrentId} {path : Bytes} {moveFiles : Bool} {s' : Session}
    (hm : ∀ r pl, (Op.setSavePath id path moveFiles).moves s r pl → al.moves r pl)
    (hp : ∀ p, s.pendingOnly id = some p → al.movesPend p path)
    (h : s.setSavePath id path moveFiles = .ok s') :
    Ctrl al s s' ∨ ∃ r, moveFiles ∧ s.torrents.lookup id = some r ∧
      Suspends al (.relocate r (s.state (s.sess r).ctl) path .done) s s' := by
  cases moveFiles with
  | false => exact .inl (setSavePath_false_ctrl hin (fun r hr => hm r _ ⟨hr, rfl⟩) hp h)
  | true =>
    rcases onTorrent_ok h with ⟨p, hpo, h⟩ | ⟨r, hr, h⟩ <;> cases h
    · exact .inl (movePend_ctrl (by intro; rfl) (.inr (hp p hpo)))
    · have h₁ : Ctrl al s (s.modifySess r fun t => { t with autoTmm := false }) :=
        modifySess_ctrl rfl
      have h₂ := Suspends.after h₁ (beginRelocate_suspends r path .done)
      rw [h₁.keeps.ctl] at h₂
      exact .inr ⟨r, rfl, hr, h₂⟩

/-! ## Tasks that go on -/

lemma afterMove_cases {saved : Nat → Bool} {after : AfterMove} (hr : al.refs r)
    (hs : after = .writer → saved r → al.saves r) :
    after ≠ .writer ∧ Ctrl al s (s.afterMove r saved after) ∨
      after = .writer ∧ Suspends al (.writer r .sending) s (s.afterMove r saved after) := by
  cases after with
  | done => exact .inl ⟨by decide, .rfl⟩
  | recheck => exact .inl ⟨by decide, spawnFlushOne_ctrl hr⟩
  | writer => exact .inr ⟨rfl, (spawn_suspends rfl).after (persist_ctrl (hs rfl))⟩

lemma maybeMoveOnComplete_cases (saved : Nat → Bool) (after : AfterMove) (hr : al.refs r)
    (hs : after = .writer → saved r → al.saves r) :
    (∃ newOutput, s.moveTarget r = some newOutput ∧
      Suspends al (.relocate r (s.state (s.sess r).ctl) newOutput after) s
        (s.maybeMoveOnComplete r saved after)) ∨
    after ≠ .writer ∧ Ctrl al s (s.maybeMoveOnComplete r saved after) ∨
    after = .writer ∧
      Suspends al (.writer r .sending) s (s.maybeMoveOnComplete r saved after) := by
  unfold maybeMoveOnComplete
  split
  · rename_i newOutput htarget
    exact .inl ⟨newOutput, htarget, beginRelocate_suspends r newOutput after⟩
  · exact .inr (afterMove_cases hr hs)

lemma recheckDone_cases {stayPaused : Bool} (saved : Nat → Bool) (hr : al.refs r)
    (hw : stayPaused = false → al.wakes (s.sess r).ctl) :
    Ctrl al s (s.recheckDone e r stayPaused saved) ∨
      ∃ previous newOutput, (stayPaused → previous = .paused) ∧
        Suspends al (.relocate r previous newOutput .recheck) s
          (s.recheckDone e r stayPaused saved) := by
  have h₁ : Ctrl al s (s.noteComplete e r) := noteComplete_ctrl
  unfold recheckDone
  extract_lets s₁ next s₂
  have h₂ : Ctrl al s₁ s₂ := by
    refine setTorrentState_ctrl ?_
    cases hp : stayPaused with
    | true => exact .inl (by simp only [next, hp]; rfl)
    | false => exact .inr (h₁.keeps.ctl r ▸ hw hp)
  split
  · rcases maybeMoveOnComplete_cases (s := s₂) saved .recheck hr nofun with
      ⟨newOutput, -, h₃⟩ | ⟨-, h₃⟩ | ⟨h₃, -⟩
    · refine .inr ⟨_, newOutput, fun hp => ?_, h₃.after (h₁.trans h₂)⟩
      simp [s₂, state, setTorrentState, Signals.setState_ctl_self, next, hp]
    · exact .inl ((h₁.trans h₂).trans h₃)
    · cases h₃
  · exact .inl ((h₁.trans h₂).trans (spawnFlushOne_ctrl hr))

lemma stateAfterMove_blocked {previous : TorrentState}
    (h : previous.keptByMove) : (s.stateAfterMove r previous).isBlocked := by
  rw [stateAfterMove, if_pos h]
  cases previous <;> simp_all [TorrentState.keptByMove, TorrentState.isBlocked]

lemma relocateDone_cases {previous : TorrentState} (newOutput : Bytes) (after : AfterMove)
    (storage : Storage) {err : Option String} (saved : Nat → Bool) (hr : al.refs r)
    (hs : after = .writer → saved r → al.saves r)
    (hm : al.moves r (storage, if err = none then newOutput else (s.sess r).outputDir))
    (hw : previous.keptByMove = false → err = none → al.wakes (s.sess r).ctl) :
    after ≠ .writer ∧ Ctrl al s (s.relocateDone r previous newOutput after storage err saved) ∨
      after = .writer ∧ Suspends al (.writer r .sending) s
        (s.relocateDone r previous newOutput after storage err saved) := by
  cases err with
  | none =>
    let s₁ := s.modifySess r fun t => { t with storage, outputDir := newOutput }
    have h₁ : Ctrl al s s₁ := moveSess_ctrl (by intro; rfl) (.inr hm)
    have hst : (s₁.stateAfterMove r previous).isBlocked ∨ al.wakes (s₁.sess r).ctl := by
      rw [h₁.keeps.ctl]
      cases hk : previous.keptByMove with
      | true => exact .inl (stateAfterMove_blocked hk)
      | false => exact .inr (hw hk rfl)
    have h₂ : Ctrl al s₁ (s₁.setTorrentState r (s.sess r).torrent.infoHash
      (s₁.stateAfterMove r previous)) := setTorrentState_ctrl hst
    have h₃ := (h₁.trans h₂).trans (spawnFlushOne_ctrl hr)
    exact (afterMove_cases hr hs).imp (fun h => ⟨h.1, h₃.trans h.2⟩) fun h => ⟨h.1, h.2.after h₃⟩
  | some msg =>
    have h₂ : Ctrl al s (((s.modifySess r fun t => { t with storage }).setTorrentState r
        (s.sess r).torrent.infoHash (.error msg)).emit (.error (s.sess r).torrent.infoHash msg)) :=
      ((moveSess_ctrl (by intro; rfl) (.inr hm)).trans (setTorrentState_ctrl (.inl rfl))).trans emit_ctrl
    exact (afterMove_cases hr hs).imp (fun h => ⟨h.1, h₂.trans h.2⟩) fun h => ⟨h.1, h.2.after h₂⟩

lemma writerWrote_suspends (pipe : Pipeline) (ok : Bool) (saved : Nat → Bool)
    (hs : saved r → al.saves r) :
    ∃ pc, Suspends al (.writer r pc) s (s.writerWrote e r pipe ok saved) := by
  have h₁ : Ctrl al s (s.modifySess r fun t => { t with pipe }) := modifySess_ctrl rfl
  unfold writerWrote
  split
  · dsimp only
    split
    · exact ⟨_, (spawn_suspends rfl).after (h₁.trans noteComplete_ctrl)⟩
    · exact ⟨_, (spawn_suspends rfl).after (h₁.trans (persist_ctrl hs))⟩
  · exact ⟨_, (spawn_suspends rfl).after h₁⟩

lemma writerSynced_cases (saved : Nat → Bool) (hr : al.refs r)
    (hs : saved r → al.saves r) :
    Suspends al (.writer r .sending) s (s.writerSynced e r saved) ∨
      ∃ previous newOutput, s.moveTarget r = some newOutput ∧
        ((s.sig.ctl (s.sess r).ctl).idle → previous = s.state (s.sess r).ctl) ∧
        Suspends al (.relocate r previous newOutput .writer) s (s.writerSynced e r saved) := by
  let s₁ := s.emit (.completed (s.sess r).torrent.infoHash)
  let s₂ := s₁.setTorrentStateIf (s₁.state (s₁.sess r).ctl = .downloading) r
    (s.sess r).torrent.infoHash .seeding
  have hnot : (s.sig.ctl (s.sess r).ctl).idle → s.state (s.sess r).ctl ≠ .downloading := by
    intro hi heq
    exact absurd hi.1 (by rw [show (s.sig.ctl _).torrentState = _ from heq]; decide)
  have h₂ : Ctrl al s s₂ := Ctrl.trans emit_ctrl
    (setTorrentStateIf_ctrl fun hb hi => absurd (of_decide_eq_true hb) (hnot hi))
  have h₃ : Ctrl al s (s₂.evaluateQueue e) := h₂.trans evaluateQueue_ctrl
  rcases maybeMoveOnComplete_cases (s := s₂.evaluateQueue e) saved .writer hr fun _ => hs
    with ⟨newOutput, htarget, h⟩ | ⟨h, -⟩ | ⟨-, h⟩
  · refine .inr ⟨_, newOutput, htarget, fun hi => ?_, h.after h₃⟩
    have hs₂ : s₂.sig.ctl = s.sig.ctl := by
      have hd : decide (s₁.state (s₁.sess r).ctl = .downloading) = false :=
        decide_eq_false (hnot hi)
      simp only [s₂, hd]
      rfl
    have hb : (s₂.state (s.sess r).ctl).isBlocked := by
      rw [state, hs₂]
      exact hi.1
    rw [state, state, ← hs₂]
    exact congrArg Ctl.torrentState (evaluateQueue_blocked hb)
  · exact absurd rfl h
  · exact .inl (h.after h₃)

/-! ## Steps -/

def inSession (s : Session) (r : Nat) : Prop := ∃ id, s.torrents.lookup id = some r

def inUse (s : Session) (c : Nat) : Prop :=
  (∃ id r, s.torrents.lookup id = some r ∧ (s.sess r).ctl = c) ∨
    ∃ id p, s.pending.lookup id = some p ∧ (s.pend p).ctl = c

def returnsKnown (s : Session) (call : Nat) (id : TorrentId) (x : Nat × TorrentId) : Prop :=
  x = (call, id) ∧ s.known id

end Session

def Act.scope (s : Session) : Act → Scope
  | .op o =>
    { refs := s.inSession, wakes := o.wakes s, moves := o.moves s, movesPend := o.movesPend s }
  | .resumeAll => { refs := s.inSession, wakes := s.inUse }
  | .poll n io =>
    match s.tasks[n]? with
    | some t => t.scope s io
    | none => .none
  | .addMeta call m _ _ => { refs := s.inSession, returns := s.returnsKnown call m.infoHash }
  | .addMagnet call m _ => { refs := s.inSession, returns := s.returnsKnown call m.infoHash }
  | .addInfoHash call h _ _ => { refs := s.inSession, returns := s.returnsKnown call h }
  | _ => { refs := s.inSession }

def Act.polled (s : Session) : Act → Option Task
  | .poll n _ => s.tasks[n]?
  | _ => none

namespace Session

def without (s : Session) (n : Nat) : Session := { s with tasks := s.tasks.eraseIdx n }

/-- The session a step starts from. -/
def before (s : Session) : Act → Session
  | .poll n _ => s.without n
  | _ => s

end Session

/-- The task `t'` is what a task suspends in next. -/
inductive Task.Follows (x : Ext) (s : Session) (io : Io) : Task → Task → Prop
  | addVerify (c : AddCall) (r : Nat) : Follows x s io (.addVerify c r) (.addVerify c r)
  | promoter {p : Nat} {bytes : Bytes} {m : Metainfo.TorrentMeta} {torrent : Torrent} :
    (s.pend p).infoBytes = some bytes →
    Metainfo.TorrentMeta.fromInfoBytes x.decodeInfo x.sha1 bytes = .ok m →
    Torrent.new m = some torrent →
    Follows x s io (.promoter p)
      (.addOpen (s.addCall torrent (Session.promoterOptions (s.pend p)) (some p) none io))
  | recheck (r : Nat) (stayPaused : Bool) : io.piece ≠ none →
    Follows x s io (.recheck r stayPaused) (.recheck r stayPaused)
  | recheckMove {r : Nat} {stayPaused : Bool} {previous : TorrentState} (newOutput : Bytes) :
    (stayPaused → previous = .paused) →
    Follows x s io (.recheck r stayPaused) (.relocate r previous newOutput .recheck)
  | relocate (r : Nat) (previous : TorrentState) (newOutput : Bytes) :
    Follows x s io (.relocate r previous newOutput .writer) (.writer r .sending)
  | moveOnComplete {r : Nat} {newOutput : Bytes} : s.moveTarget r = some newOutput →
    Follows x s io (.moveOnComplete r) (.relocate r (s.state (s.sess r).ctl) newOutput .done)
  | writer (r : Nat) (pc pc' : WriterPc) : Follows x s io (.writer r pc) (.writer r pc')
  | writerMove {r : Nat} {previous : TorrentState} {newOutput : Bytes} :
    s.moveTarget r = some newOutput →
    ((s.sig.ctl (s.sess r).ctl).idle → previous = s.state (s.sess r).ctl) →
    Follows x s io (.writer r .syncing) (.relocate r previous newOutput .writer)

/-- The action suspends the task `t`. -/
inductive Act.Begins (x : Ext) (s : Session) : Act → Task → Prop
  | recheck {id : TorrentId} {r : Nat} : s.torrents.lookup id = some r →
    Begins x s (.op (.recheck id)) (.recheck r (s.state (s.sess r).ctl = .paused))
  | setSavePath {id : TorrentId} {r : Nat} (path : Bytes) : s.torrents.lookup id = some r →
    Begins x s (.op (.setSavePath id path true))
      (.relocate r (s.state (s.sess r).ctl) path .done)
  | addMeta {call : Nat} {m : Metainfo.TorrentMeta} {opts : AddTorrentOptions} {io : Io}
      {torrent : Torrent} : s.known m.infoHash = false → Torrent.new m = some torrent →
    Begins x s (.addMeta call m opts io) (.addOpen (s.addCall torrent opts none (some call) io))
  | addMagnet {call : Nat} {m : Magnet} {opts : AddTorrentOptions} (outputDir : Bytes) :
    s.known m.infoHash = false →
    Begins x s (.addMagnet call m opts)
      (.pendingOpen ⟨call, m.infoHash, m.nameOrHash, outputDir, opts, true⟩)
  | addInfoHash {call : Nat} {h : Digest} {outputDir : Option Bytes} {tmp : Bytes}
      (c : PendingCall) : s.known h = false → c.call = call → c.infoHash = h → c.magnet = false →
    Begins x s (.addInfoHash call h outputDir tmp) (.pendingOpen c)
  | poll {n : Nat} {io : Io} {t t' : Task} : s.tasks[n]? = some t → t.Follows x s io t' →
    Begins x s (.poll n io) t'

inductive StepCase (x : Ext) (s : Session) (e : Env) : Act → Session → Prop
  | ctrl {a : Act} {s' : Session} : Ctrl (a.scope s) (s.before a) s' →
    -- A task that makes a session object or writes for one does not end here.
    (∀ t, a.polled s = some t → t.constructs = none ∧ t.writes = none) → StepCase x s e a s'
  | suspends {a : Act} {t : Task} {s₁ : Session} : a.Begins x s t →
    Ctrl (a.scope s) (s.before a) s₁ →
    -- Unless it was checked before, a torrent that is checked or moved is idle.
    (∀ r, t.busy = some r → a.polled s = some t ∨ (s₁.sig.ctl (s₁.sess r).ctl).idle) →
    StepCase x s e a (s₁.spawn t)
  | removed {id : TorrentId} {deleteFiles : Bool} {s' : Session} :
    id ∈ s.torrents ∨ id ∈ s.pending → Ctrl .none (s.takeOut id deleteFiles) s' →
    StepCase x s e (.removeTorrent id deleteFiles) s'
  | metadata {p : Nat} {bytes : Bytes} : p < s.nextPend → (s.pend p).infoBytes = none →
    x.sha1 bytes = (s.pend p).placeholder.infoHash →
    StepCase x s e (.metadata p bytes) (s.modifyPend p fun t => { t with infoBytes := some bytes })
  | opened {n : Nat} {io : Io} {c : AddCall} : s.tasks[n]? = some (.addOpen c) →
    StepCase x s e (.poll n io) (((s.without n).allocSession c).spawn (.addVerify c s.nextSess))
  | openedAll {n : Nat} {io : Io} {c : AddCall} {s₁ : Session} : s.tasks[n]? = some (.addOpen c) →
    Ctrl .none ((s.without n).allocSession c) s₁ →
    StepCase x s e (.poll n io) ((s₁.initTorrent c s.nextSess).spawn
      (.addListen c s.nextSess (s₁.initialState c s.nextSess) (s₁.startsPaused c)))
  | finished {n : Nat} {io : Io} {c : AddCall} {r : Nat} {s₁ : Session} :
    s.tasks[n]? = some (.addVerify c r) → Ctrl .none (s.without n) s₁ →
    StepCase x s e (.poll n io) ((s₁.initTorrent c r).spawn
      (.addListen c r (s₁.initialState c r) (s₁.startsPaused c)))
  | inserted {n : Nat} {io : Io} {c : AddCall} {r : Nat} {initial : TorrentState}
      {startPaused : Bool} {s' : Session} :
    s.tasks[n]? = some (.addListen c r initial startPaused) →
    Ctrl { refs := fun r' => r' = r, saves := fun r' => r' = r } ((s.without n).place c r initial) s' →
    StepCase x s e (.poll n io) s'
  | registered {n : Nat} {io : Io} {c : PendingCall} : s.tasks[n]? = some (.pendingOpen c) →
    StepCase x s e (.poll n io) ((s.without n).registerPending c)

lemma StepCase.of_suspends {x : Ext} {s s' : Session} {e : Env} {a : Act} {t : Task}
    (hb : a.Begins x s t) (h : Suspends (a.scope s) t (s.before a) s') : StepCase x s e a s' := by
  obtain ⟨s₁, hc, rfl, hi⟩ := h
  exact .suspends hb hc fun r hr => .inr (hi r hr)

lemma StepCase.call {x : Ext} {s s' : Session} {e : Env} {a : Act} (ha : a.polled s = none)
    (hc : Ctrl (a.scope s) (s.before a) s') : StepCase x s e a s' :=
  .ctrl hc fun t ht => by simp [ha] at ht

namespace Session

variable {x : Ext} {s s' : Session} {e : Env}

lemma control_cases (o : Op) : StepCase x s e (.op o) (s.control e o) := by
  have hin : ∀ id r, s.torrents.lookup id = some r → ((Act.op o).scope s).refs r :=
    fun id r h => ⟨id, h⟩
  cases o with
  | pause id => exact .call rfl (after_ctrl fun s' h => pause_ctrl hin h)
  | resume id => exact .call rfl (after_ctrl fun s' h => resume_ctrl hin (fun _ hc => hc) h)
  | setForceStart id enabled =>
    refine .call rfl (after_ctrl fun s' h => setForceStart_ctrl hin (fun he c hc => ?_) h)
    subst he
    exact hc
  | setFilePriority id i prio =>
    exact .call rfl (after_ctrl fun s' h => reprioritizes_ctrl hin
      (fun r hr hp hc => ⟨r, hr, rfl, hp, hc⟩) (setFilePriority_ok h))
  | setFilePriorities id prios =>
    exact .call rfl (after_ctrl fun s' h => reprioritizes_ctrl hin
      (fun r hr hp hc => ⟨r, hr, rfl, hp, hc⟩) (setFilePriorities_ok h))
  | setSavePath id path moveFiles =>
    simp only [control]
    cases h : s.setSavePath id path moveFiles with
    | error _ => exact .call rfl .rfl
    | ok s' =>
      rcases setSavePath_cases hin (fun _ _ hr => hr) (fun _ hp => ⟨hp, rfl⟩) h with hc | ⟨r, rfl, hr, hc⟩
      · exact .call rfl hc
      · exact .of_suspends (.setSavePath path hr) hc
  | recheck id =>
    simp only [control]
    cases h : s.recheck id with
    | error _ => exact .call rfl .rfl
    | ok s' =>
      obtain ⟨r, hr, hc⟩ := recheck_suspends h
      exact .of_suspends (.recheck hr) hc
  | setSequential | withTags | setShareLimits | setCategory | createCategory | editCategory =>
    exact .call rfl ((control_retouches rfl).ctrl hin)
  | removeCategory name => exact .call rfl (after_ctrl fun s' h => removeCategory_ctrl hin h)
  | setQueuePosition id pos => exact .call rfl (after_ctrl fun s' h => setQueuePosition_ctrl hin h)

lemma promotionFailed_ctrl {al : Scope} {p : Nat} {msg : String} :
    Ctrl al s (s.promotionFailed p msg) :=
  (writeCell_ctrl (fun _ => rfl) (.fail s.sig _ msg)).trans emit_ctrl

lemma beginAdd_cases (al : Scope) (m : Metainfo.TorrentMeta) (opts : AddTorrentOptions)
    (reuse call : Option Nat) (io : Io) :
    (∃ s₁ msg, s.beginAdd m opts reuse call io = (s₁, some msg) ∧ Ctrl al s s₁) ∨
      ∃ s₁ torrent, s.beginAdd m opts reuse call io = (s₁, none) ∧ Torrent.new m = some torrent ∧
        Suspends al (.addOpen (s.addCall torrent opts reuse call io)) s s₁ := by
  unfold beginAdd
  cases ht : Torrent.new m with
  | none => exact .inl ⟨s, _, rfl, .rfl⟩
  | some torrent =>
    dsimp only
    split
    · exact .inl ⟨_, _, rfl, setCategories_ctrl⟩
    · exact .inr ⟨_, torrent, rfl, rfl, (spawn_suspends rfl).after setCategories_ctrl⟩

/-- The storage of a new torrent is open: its data is checked, or it gets its first state. -/
lemma openStorage_cases {n : Nat} {io : Io} {c : AddCall} (ht : s.tasks[n]? = some (.addOpen c)) :
    StepCase x s e (.poll n io) ((s.without n).openStorage e c) := by
  have htable : ∀ f, Ctrl .none ((s.without n).allocSession c)
      ((((s.without n).allocSession c).modifyTable s.nextSess f).noteComplete e s.nextSess) :=
    fun f => modifyTable_ctrl.trans noteComplete_ctrl
  unfold openStorage
  split
  · exact .openedAll ht (htable _)
  split
  · dsimp only
    split
    · exact .openedAll ht (htable _)
    · exact .opened ht
  · exact .openedAll ht noteComplete_ctrl

lemma insertTorrent_ctrl {c : AddCall} {r : Nat} {initial : TorrentState} {startPaused : Bool}
    {saved : Nat → Bool} :
    Ctrl { refs := fun r' => r' = r, saves := fun r' => r' = r } (s.place c r initial)
      (s.insertTorrent e c r initial startPaused saved) := by
  have hglobal : ∀ (al : Scope) (s : Session) (b : Bool), Ctrl al s (s.wakeGlobal b) :=
    fun _ _ _ => setGlobal_ctrl
  refine (((((persist_ctrl fun _ => rfl).trans (spawnIf_ctrl rfl ?_)).trans (hglobal _ _ _)).trans
    emit_ctrl).trans emit_ctrl).trans evaluateQueueIf_ctrl |>.trans (spawnIf_ctrl rfl ?_) <;>
    simp

lemma resumeTask_cases {n : Nat} {io : Io} {t : Task} (ht : s.tasks[n]? = some t)
    (h : resumeTask x (s.without n) e io t = some s') : StepCase x s e (.poll n io) s' := by
  have hscope : (Act.poll n io).scope s = t.scope s io := by simp only [Act.scope, ht]
  have hctrl : Ctrl (t.scope s io) (s.without n) s' → t.constructs = none ∧ t.writes = none →
      StepCase x s e (.poll n io) s' := by
    refine fun hc hends => .ctrl (hscope ▸ hc) fun t' ht' => ?_
    obtain rfl : t = t' := by simpa [Act.polled, ht] using ht'
    exact hends
  have hnext : ∀ {t'}, t.Follows x s io t' → Suspends (t.scope s io) t' (s.without n) s' →
      StepCase x s e (.poll n io) s' := fun hf hc => .of_suspends (.poll ht hf) (hscope ▸ hc)
  cases t with
  | addOpen c =>
    simp only [resumeTask] at h
    split at h <;> cases h
    · refine hctrl ?_ ⟨rfl, rfl⟩
      unfold addFailed
      split
      · exact promotionFailed_ctrl
      · exact .rfl
    · exact openStorage_cases ht
  | addVerify c r =>
    simp only [resumeTask] at h
    split at h <;> cases h
    · exact hnext (.addVerify c r) ((spawn_suspends rfl).after modifyTable_ctrl)
    · exact .finished ht noteComplete_ctrl
  | addListen c r initial startPaused =>
    cases h
    exact .inserted ht insertTorrent_ctrl
  | pendingOpen c =>
    simp only [resumeTask] at h
    split at h <;> cases h
    · exact hctrl .rfl ⟨rfl, rfl⟩
    · exact .registered ht
  | promoter p =>
    obtain ⟨bytes, hb, rfl⟩ := Option.map_eq_some_iff.1 h
    cases hm : Metainfo.TorrentMeta.fromInfoBytes x.decodeInfo x.sha1 bytes with
    | error err =>
      refine hctrl ?_ ⟨rfl, rfl⟩
      simp only [promote, hm]
      exact promotionFailed_ctrl
    | ok m =>
      rcases beginAdd_cases (s := s.without n) (Task.scope s io (.promoter p)) m
        (promoterOptions (s.pend p)) (some p) none io with
        ⟨s₁, msg, heq, hc⟩ | ⟨s₁, torrent, heq, hnew, hc⟩
      · refine hctrl ?_ ⟨rfl, rfl⟩
        simp only [promote, hm]
        exact (show (s.without n).beginAdd _ _ _ _ _ = _ from heq) ▸ hc.trans promotionFailed_ctrl
      · refine hnext (.promoter hb hm hnew) ?_
        simp only [promote, hm]
        exact (show (s.without n).beginAdd _ _ _ _ _ = _ from heq) ▸ hc
  | recheck r stayPaused =>
    have hr : (Task.scope s io (.recheck r stayPaused)).refs r := List.mem_singleton_self r
    simp only [resumeTask] at h
    split at h <;> cases h
    · rename_i i hp
      exact .suspends (.poll ht (.recheck r stayPaused (by simp [hp]))) modifyTable_ctrl
        fun _ _ => .inl (by simp only [Act.polled, ht])
    · rename_i hp
      rcases recheckDone_cases (s := s.without n) (e := e) io.saved hr
        (fun hs => ⟨hp, hs, rfl⟩) with hc | ⟨previous, newOutput, hprev, hc⟩
      · exact hctrl hc ⟨rfl, rfl⟩
      · exact hnext (.recheckMove newOutput hprev) hc
  | relocate r previous newOutput after =>
    have hr : (Task.scope s io (.relocate r previous newOutput after)).refs r :=
      List.mem_singleton_self r
    have hs : after = .writer → io.saved r →
        (Task.scope s io (.relocate r previous newOutput after)).saves r := by
      rintro rfl hok
      simp [Task.scope, Task.saves, hok]
    obtain ⟨⟨storage, err⟩, hst, rfl⟩ := Option.map_eq_some_iff.1 h
    rcases relocateDone_cases (s := s.without n) newOutput after storage io.saved hr hs
      ⟨rfl, err, hst, rfl⟩
      (fun hk he => ⟨hk, rfl, storage, he ▸ hst⟩) with ⟨hne, hc⟩ | ⟨rfl, hc⟩
    · refine hctrl hc ⟨rfl, ?_⟩
      cases after <;> first | rfl | exact absurd rfl hne
    · exact hnext (.relocate r previous newOutput) hc
  | moveOnComplete r =>
    have hr : (Task.scope s io (.moveOnComplete r)).refs r := List.mem_singleton_self r
    cases h
    rcases maybeMoveOnComplete_cases (s := s.without n) io.saved .done hr (fun hw => by cases hw)
      with ⟨newOutput, htarget, hc⟩ | ⟨-, hc⟩ | ⟨hw, -⟩
    · exact hnext (.moveOnComplete htarget) hc
    · exact hctrl hc ⟨rfl, rfl⟩
    · cases hw
  | flush rs =>
    cases h
    exact hctrl (foldl_ctrl _ fun _ _ r hr => persist_ctrl fun hok => List.mem_filter.2 ⟨hr, hok⟩)
      ⟨rfl, rfl⟩
  | resumeTimer r =>
    simp only [resumeTask] at h
    split at h
    · split at h <;> cases h
      exact hctrl .rfl ⟨rfl, rfl⟩
    · rename_i hends
      cases h
      refine hctrl ((persist_ctrl fun hok => ?_).trans
        (spawnIf_ctrl (b := true) rfl fun _ hr => hr)) ⟨rfl, rfl⟩
      obtain ⟨hok, htransfer⟩ := Bool.and_eq_true_iff.1 hok
      have hstate : (s.state (s.sess r).ctl).transferEnabled := htransfer
      simp [Task.scope, Task.saves, hends, hstate, hok]
  | writer r pc =>
    have hr : (Task.scope s io (.writer r pc)).refs r := List.mem_singleton_self r
    have hs : pc = .writing ∨ pc = .syncing → io.saved r →
        (Task.scope s io (.writer r pc)).saves r := by
      rintro (rfl | rfl) hok <;> simp [Task.scope, Task.saves, hok]
    cases pc with
    | recv =>
      obtain ⟨pipe, -, rfl⟩ := Option.map_eq_some_iff.1 h
      exact hnext (.writer r _ _) ((spawn_suspends rfl).after (modifySess_ctrl (by rfl)))
    | writing =>
      obtain ⟨pipe, -, rfl⟩ := Option.map_eq_some_iff.1 h
      obtain ⟨pc', hc⟩ := writerWrote_suspends (s := s.without n) (e := e) pipe
        io.err.isNone io.saved (hs (.inl rfl))
      exact hnext (.writer r _ pc') hc
    | syncing =>
      cases h
      rcases writerSynced_cases (s := s.without n) (e := e) io.saved hr (hs (.inr rfl)) with
        hc | ⟨previous, newOutput, htarget, hprev, hc⟩
      · exact hnext (.writer r _ _) hc
      · exact hnext (.writerMove htarget hprev) hc
    | sending =>
      cases h
      exact hnext (.writer r _ _) (spawn_suspends rfl)

lemma pipeStep_ctrl {al : Scope} {r : Nat} {a : PipelineAct} (h : s.pipeStep x r a = some s') :
    Ctrl al s s' := by
  unfold pipeStep at h
  split_ifs at h
  obtain ⟨pipe, -, rfl⟩ := Option.map_eq_some_iff.1 h
  exact modifySess_ctrl rfl

lemma addExisting_ctrl {al : Scope} {call : Nat} {id : TorrentId} (h : al.returns (call, id)) :
    Ctrl al s (s.addExisting call id) := by
  refine { Ctrl.rfl (s := s) with
    keeps := { Keeps.rfl with }, returned := ⟨[(call, id)], rfl, fun x hx => ?_⟩ }
  rw [List.mem_singleton] at hx
  exact hx ▸ h

lemma step_cases {a : Act} (h : s.step x (e, a) = some s') : StepCase x s e a s' := by
  have hin : ∀ id r, s.torrents.lookup id = some r → s.inSession r := fun id r h => ⟨id, h⟩
  cases a with
  | op o =>
    cases h
    exact control_cases o
  | pauseAll =>
    cases h
    exact .call rfl (pauseAll_ctrl hin)
  | resumeAll =>
    cases h
    exact .call rfl (resumeAll_ctrl hin (fun id r hr => .inl ⟨id, r, hr, rfl⟩)
      fun id p hp => .inr ⟨id, p, hp, rfl⟩)
  | removeTorrent id deleteFiles =>
    cases h
    unfold removeTorrent
    split_ifs with hid
    · exact .removed hid (((dhtSend_ctrl (by trivial)).trans emit_ctrl).trans evaluateQueue_ctrl)
    · exact .call rfl .rfl
  | tick =>
    cases h
    exact .call rfl (tick_ctrl hin)
  | restore on =>
    cases h
    have h₁ : Ctrl ((Act.restore on).scope s) s { s with restoring := on } :=
      { Ctrl.rfl (s := s) with keeps := { Keeps.rfl with } }
    exact .call rfl (h₁.trans evaluateQueue_ctrl)
  | addMeta call m opts io =>
    cases h
    simp only [addMeta]
    split_ifs with hk
    · exact .call rfl (addExisting_ctrl ⟨rfl, hk⟩)
    · rcases beginAdd_cases (s := s) ((Act.addMeta call m opts io).scope s) m opts none
        (some call) io with ⟨s₁, msg, heq, hc⟩ | ⟨s₁, torrent, heq, hnew, hc⟩
      · rw [heq]
        exact .call rfl hc
      · rw [heq]
        exact .of_suspends (.addMeta (by simpa using hk) hnew) hc
  | addMagnet call m opts =>
    cases h
    simp only [addMagnet]
    split_ifs with hk
    · exact .call rfl (addExisting_ctrl ⟨rfl, hk⟩)
    · exact .of_suspends (.addMagnet _ (by simpa using hk))
        ((spawn_suspends rfl).after setCategories_ctrl)
  | addInfoHash call hash outputDir tmp =>
    cases h
    simp only [addInfoHash]
    split_ifs with hk
    · exact .call rfl (addExisting_ctrl ⟨rfl, hk⟩)
    · exact .of_suspends (.addInfoHash _ (by simpa using hk) rfl rfl rfl) (spawn_suspends rfl)
  | metadata p bytes =>
    simp only [step] at h
    split at h <;> cases h
    rename_i hp
    exact .metadata hp.1 hp.2.1 hp.2.2
  | piece r peer index start data | verified r n joined => exact .call rfl (pipeStep_ctrl h)
  | poll n io =>
    obtain ⟨t, ht, h⟩ := Option.bind_eq_some_iff.1 h
    exact resumeTask_cases ht h

end Session

end BitRev
