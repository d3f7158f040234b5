import BitRev.Framework.Growth
import BitRev.Session.Cells
import BitRev.Session.Step

/-!
# What an operation can do

Most steps of a session leave its torrents and magnets, and what these are made of, as they are.
`Ctrl al s s'` says what such a step may do instead, within the scope `al`: it starts flushes,
moves and timers only for the sessions `al.refs`, rewrites the resume files of no others, makes
idle torrents active only in the cells `al.wakes`, and tells the DHT actor that a torrent is
active only if it was not idle or is in one of these cells. Where the files of a torrent are
changes only as `al.moves` says, add calls return only as `al.returns` says, and the state cells
change as calls change them (`CellRun`).

`Ctrl` composes (`Ctrl.trans`), so that the effect of an operation follows from the effects of the
functions it calls.
-/

namespace BitRev

open List Function

/-- What of a session object a control operation leaves alone. -/
def TorrentSession.fixed (t : TorrentSession) : Torrent × Nat × Bool × Bool :=
  (t.torrent, t.ctl, t.running, t.cancelled)

/-- What of a pending magnet a control operation leaves alone. -/
def PendingTorrent.fixed (t : PendingTorrent) : Torrent × Nat × Bool × Option Bytes × Option Nat :=
  (t.placeholder, t.ctl, t.startPaused, t.infoBytes, t.slot)

def TorrentSession.place (t : TorrentSession) : Storage × Bytes := (t.storage, t.outputDir)

/-- The torrent is paused, checked, moved or in error, and nothing is transferred. -/
def Ctl.idle (k : Ctl) : Prop := k.torrentState.isBlocked ∧ k.downloadState ≠ .downloading

instance (k : Ctl) : Decidable k.idle :=
  inferInstanceAs (Decidable (k.torrentState.isBlocked ∧ k.downloadState ≠ .downloading))

lemma syncDownloadState_blocked {st : TorrentState} (h : st.isBlocked) :
    syncDownloadState st ≠ .downloading := by
  cases st <;> simp_all [TorrentState.isBlocked, syncDownloadState, TorrentState.transferEnabled]

namespace Task

@[simp] def sessions : Task → List Nat
  | .addOpen _ | .addVerify .. | .addListen .. | .pendingOpen _ | .promoter _ => []
  | .recheck r _ | .relocate r _ _ _ | .moveOnComplete r | .resumeTimer r | .writer r _ => [r]
  | .flush rs => rs

/-- Tasks that an operation starts on the side. -/
def isLight : Task → Bool
  | .moveOnComplete _ | .flush _ | .resumeTimer _ => true
  | _ => false

end Task

/-- What an operation may touch. -/
structure Scope where
  refs : Nat → Prop := fun _ => False
  /-- The sessions it may write the resume file of. -/
  saves : Nat → Prop := fun _ => False
  wakes : Nat → Prop := fun _ => False
  /-- The places it may give to the files of a session. -/
  moves : Nat → Storage × Bytes → Prop := fun _ _ => False
  /-- The save paths it may give to a magnet. -/
  movesPend : Nat → Bytes → Prop := fun _ _ => False
  /-- The add calls it may end, and the ids they return. -/
  returns : Nat × TorrentId → Prop := fun _ => False

/-- The scope of a step that touches no session and wakes no torrent. -/
def Scope.none : Scope := {}

structure Keeps (s s' : Session) : Prop where
  options : s'.options = s.options
  torrents : s'.torrents = s.torrents
  pending : s'.pending = s.pending
  nextSess : s'.nextSess = s.nextSess
  nextPend : s'.nextPend = s.nextPend
  nextCtl : s'.nextCtl = s.nextCtl
  sess : ∀ r, (s'.sess r).fixed = (s.sess r).fixed
  pend : ∀ p, (s'.pend p).fixed = (s.pend p).fixed
  infoHash : ∀ c, (s'.sig.ctl c).infoHash = (s.sig.ctl c).infoHash

namespace Keeps

variable {s s₁ s' : Session}

lemma rfl : Keeps s s :=
  ⟨.refl _, .refl _, .refl _, .refl _, .refl _, .refl _, fun _ => .refl _, fun _ => .refl _,
    fun _ => .refl _⟩

lemma trans (h : Keeps s s₁) (h' : Keeps s₁ s') : Keeps s s' :=
  ⟨h'.options.trans h.options, h'.torrents.trans h.torrents, h'.pending.trans h.pending,
    h'.nextSess.trans h.nextSess, h'.nextPend.trans h.nextPend, h'.nextCtl.trans h.nextCtl,
    fun r => (h'.sess r).trans (h.sess r), fun p => (h'.pend p).trans (h.pend p),
    fun c => (h'.infoHash c).trans (h.infoHash c)⟩

variable (h : Keeps s s')
include h

lemma torrent (r : Nat) : (s'.sess r).torrent = (s.sess r).torrent := congrArg (·.1) (h.sess r)

lemma ctl (r : Nat) : (s'.sess r).ctl = (s.sess r).ctl := congrArg (·.2.1) (h.sess r)

lemma running (r : Nat) : (s'.sess r).running = (s.sess r).running :=
  congrArg (·.2.2.1) (h.sess r)

variable (p : Nat)

lemma placeholder : (s'.pend p).placeholder = (s.pend p).placeholder :=
  congrArg (·.1) (h.pend p)

lemma pendCtl : (s'.pend p).ctl = (s.pend p).ctl := congrArg (·.2.1) (h.pend p)

lemma startPaused : (s'.pend p).startPaused = (s.pend p).startPaused :=
  congrArg (·.2.2.1) (h.pend p)

lemma infoBytes : (s'.pend p).infoBytes = (s.pend p).infoBytes :=
  congrArg (·.2.2.2.1) (h.pend p)

lemma slot : (s'.pend p).slot = (s.pend p).slot := congrArg (·.2.2.2.2) (h.pend p)

lemma cellOf (id : TorrentId) : s'.cellOf id = s.cellOf id := by
  simp only [Session.cellOf, h.torrents, h.pending, h.ctl, h.pendCtl]

end Keeps

def DhtCmd.Allowed (al : Scope) (s : Session) : DhtCmd → Prop
  | .setActive id true => ∃ c, s.cellOf id = some c ∧ ((s.sig.ctl c).idle → al.wakes c)
  | .addTorrent .. => False
  | _ => True

structure Ctrl (al : Scope) (s s' : Session) : Prop where
  keeps : Keeps s s'
  tasks : ∃ new, s'.tasks = s.tasks ++ new ∧
    ∀ t ∈ new, t.isLight ∧ ∀ r ∈ t.sessions, al.refs r
  idle : ∀ c, ¬al.wakes c → (s.sig.ctl c).idle → (s'.sig.ctl c).idle
  dhtTx : ∃ new, s'.sig.dhtTx = s.sig.dhtTx ++ new ∧ ∀ cmd ∈ new, cmd.Allowed al s
  resumeFiles : ∀ id, (∀ r, al.saves r → (s.sess r).torrent.infoHash ≠ id) →
    s'.resumeFiles.lookup id = s.resumeFiles.lookup id
  place : ∀ r, (s'.sess r).place = (s.sess r).place ∨ al.moves r (s'.sess r).place
  outputDir : ∀ p, (s'.pend p).outputDir = (s.pend p).outputDir ∨
    al.movesPend p (s'.pend p).outputDir
  returned : ∃ new, s'.returned = s.returned ++ new ∧ ∀ x ∈ new, al.returns x
  cells : CellRun s.sig.ctl s'.sig.ctl

namespace Ctrl

variable {al : Scope} {s s₁ s' : Session}

lemma rfl : Ctrl al s s :=
  ⟨.rfl, ⟨[], by simp⟩, fun _ _ h => h, ⟨[], by simp⟩, fun _ _ => .refl _, fun _ => .inl (.refl _),
    fun _ => .inl (.refl _), ⟨[], by simp⟩, .rfl⟩

/-- What is allowed after a step within the scope was allowed before it. -/
lemma allowed (h : Ctrl al s s₁) {cmd : DhtCmd} (hc : cmd.Allowed al s₁) : cmd.Allowed al s := by
  cases cmd with
  | setActive id active =>
    cases active with
    | false => trivial
    | true =>
      obtain ⟨c, hcell, hw⟩ := hc
      refine ⟨c, (h.keeps.cellOf id).symm.trans hcell, fun hidle => ?_⟩
      by_contra hn
      exact hn (hw (h.idle c hn hidle))
  | addTorrent => exact hc
  | removeTorrent | setAllActive => trivial

lemma trans (h : Ctrl al s s₁) (h' : Ctrl al s₁ s') : Ctrl al s s' := by
  obtain ⟨cmds, hd, hcmds⟩ := h'.dhtTx
  refine ⟨h.keeps.trans h'.keeps, Growth.append h.tasks h'.tasks,
    fun c hw hi => h'.idle c hw (h.idle c hw hi),
    Growth.append h.dhtTx ⟨cmds, hd, fun cmd hc => h.allowed (hcmds cmd hc)⟩, fun id hid => ?_,
    fun r => ?_, fun p => ?_, Growth.append h.returned h'.returned, h.cells.trans h'.cells⟩
  · refine (h'.resumeFiles id fun r hr => ?_).trans (h.resumeFiles id hid)
    rw [h.keeps.torrent]
    exact hid r hr
  · rcases h'.place r with h₁ | h₁
    · rw [h₁]
      exact h.place r
    · exact .inr h₁
  · rcases h'.outputDir p with h₁ | h₁
    · rw [h₁]
      exact h.outputDir p
    · exact .inr h₁

lemma place_eq {refs saves wakes : Nat → Prop} (h : Ctrl { refs, saves, wakes } s s') {r : Nat} :
    (s'.sess r).place = (s.sess r).place :=
  (h.place r).resolve_right id

lemma outputDir_eq {refs saves wakes : Nat → Prop} (h : Ctrl { refs, saves, wakes } s s') {p : Nat} :
    (s'.pend p).outputDir = (s.pend p).outputDir :=
  (h.outputDir p).resolve_right id

end Ctrl

namespace Session

variable {al : Scope} {s : Session} {e : Env} {f : TorrentSession → TorrentSession} {β : Type}
  {r p : Nat} {st : TorrentState} {id : TorrentId} {b : Bool}

/-! ## The functions the operations call -/

lemma modifySess_sess (g : TorrentSession → β) (h : ∀ t, g (f t) = g t) (s : Session) (r r' : Nat) :
    g ((s.modifySess r f).sess r') = g (s.sess r') := by
  rcases eq_or_ne r' r with rfl | hne
  · simp only [modifySess, update_self, h]
  · simp only [modifySess, update_of_ne hne]

lemma modifyPend_pend (g : PendingTorrent → β) {f : PendingTorrent → PendingTorrent}
    (h : ∀ t, g (f t) = g t) (s : Session) (p p' : Nat) :
    g ((s.modifyPend p f).pend p') = g (s.pend p') := by
  rcases eq_or_ne p' p with rfl | hne
  · simp only [modifyPend, update_self, h]
  · simp only [modifyPend, update_of_ne hne]

lemma moveSess_ctrl (h : ∀ t, (f t).fixed = t.fixed)
    (hm : (f (s.sess r)).place = (s.sess r).place ∨ al.moves r (f (s.sess r)).place) :
    Ctrl al s (s.modifySess r f) := by
  refine { Ctrl.rfl (s := s) with
    keeps := { Keeps.rfl with sess := modifySess_sess _ h s r }, place r' := ?_ }
  rcases eq_or_ne r' r with rfl | hne
  · simpa only [modifySess, update_self] using hm
  · exact .inl (by simp only [modifySess, update_of_ne hne])

lemma movePend_ctrl {f : PendingTorrent → PendingTorrent} (h : ∀ t, (f t).fixed = t.fixed)
    (hm : (f (s.pend p)).outputDir = (s.pend p).outputDir ∨
      al.movesPend p (f (s.pend p)).outputDir) : Ctrl al s (s.modifyPend p f) := by
  refine { Ctrl.rfl (s := s) with
    keeps := { Keeps.rfl with pend := modifyPend_pend _ h s p }, outputDir p' := ?_ }
  rcases eq_or_ne p' p with rfl | hne
  · simpa only [modifyPend, update_self] using hm
  · exact .inl (by simp only [modifyPend, update_of_ne hne])

lemma modifySess_ctrl (h : (fun t => ((f t).fixed, (f t).place)) = fun t => (t.fixed, t.place)) :
    Ctrl al s (s.modifySess r f) :=
  moveSess_ctrl (fun t => congrArg (·.1) (congrFun h t)) (.inl (congrArg (·.2) (congrFun h _)))

lemma modifyPend_ctrl {f : PendingTorrent → PendingTorrent}
    (h : (fun t => ((f t).fixed, (f t).outputDir)) = fun t => (t.fixed, t.outputDir)) :
    Ctrl al s (s.modifyPend p f) :=
  movePend_ctrl (fun t => congrArg (·.1) (congrFun h t)) (.inl (congrArg (·.2) (congrFun h _)))

lemma setState_self_idle (g : Signals) (c : Nat) (id : TorrentId)
    (h : st.isBlocked) : ((g.setState c id st).ctl c).idle := by
  rw [Signals.setState_ctl_self]
  exact ⟨h, syncDownloadState_blocked h⟩

lemma setState_idle {g : Signals} {c c' : Nat} (hi : (g.ctl c').idle)
    (h : c' = c → st.isBlocked) : ((g.setState c id st).ctl c').idle := by
  rcases eq_or_ne c' c with rfl | hne
  · exact setState_self_idle g c' id (h rfl)
  · rwa [Signals.setState_ctl_ne g id st hne]

lemma setCell_ctrl {c : Nat} (h : (s.sig.ctl c).idle → st.isBlocked ∨ al.wakes c) :
    Ctrl al s { s with sig := s.sig.setState c id st } := by
  refine { Ctrl.rfl (s := s) with
    keeps := { Keeps.rfl with infoHash := by simp }
    idle c' hw hi := setState_idle hi fun heq => ?_
    dhtTx := ⟨[], by simp⟩
    cells := CellRun.setState s.sig c id st }
  subst heq
  exact (h hi).resolve_right hw

lemma writeCell_ctrl {c : Nat} (h : (s.sig.ctl c).idle → st.isBlocked)
    (hc : CellRun s.sig.ctl (s.sig.writeState c st).ctl) :
    Ctrl al s { s with sig := s.sig.writeState c st } := by
  refine { Ctrl.rfl (s := s) with
    keeps := { Keeps.rfl with infoHash := by simp }, idle c' _ hi := ?_, cells := hc }
  rcases eq_or_ne c' c with rfl | hne
  · rw [Signals.writeState_ctl_self]
    exact ⟨h hi, hi.2⟩
  · rwa [Signals.writeState_ctl_ne _ st hne]

lemma setAll_ctrl {cells : List (Nat × TorrentId × TorrentState)}
    (h : ∀ x ∈ cells, x.2.2.isBlocked ∨ al.wakes x.1) : Ctrl al s (s.setAll cells) :=
  foldlRecOn (motive := fun g => Ctrl al s { s with sig := g }) cells _ .rfl fun g hg x hx =>
    hg.trans (setCell_ctrl (s := { s with sig := g }) fun _ => h x hx)

lemma setTorrentState_ctrl
    (h : st.isBlocked ∨ al.wakes (s.sess r).ctl) : Ctrl al s (s.setTorrentState r id st) :=
  setCell_ctrl fun _ => h

lemma setPendingState_ctrl
    (h : st.isBlocked ∨ al.wakes (s.pend p).ctl) : Ctrl al s (s.setPendingState p id st) :=
  setCell_ctrl fun _ => h

lemma setTorrentStateIf_ctrl (h : b → (s.sig.ctl (s.sess r).ctl).idle →
      st.isBlocked ∨ al.wakes (s.sess r).ctl) :
    Ctrl al s (s.setTorrentStateIf b r id st) := by
  cases b with
  | true => exact setCell_ctrl (h rfl)
  | false => exact .rfl

lemma setPendingStateIf_ctrl (h : b → st.isBlocked ∨ al.wakes (s.pend p).ctl) :
    Ctrl al s (s.setPendingStateIf b p id st) := by
  cases b with
  | true => exact setPendingState_ctrl (h rfl)
  | false => exact .rfl

lemma emitIf_ctrl {ev : SessionEvent} : Ctrl al s (s.emitIf b ev) :=
  { Ctrl.rfl (s := s) with keeps := { Keeps.rfl with } }

lemma emit_ctrl {ev : SessionEvent} : Ctrl al s (s.emit ev) :=
  emitIf_ctrl (b := true)

lemma dhtSend_ctrl {cmd : DhtCmd} (h : cmd.Allowed al s) :
    Ctrl al s (s.dhtSend cmd) := by
  refine { Ctrl.rfl (s := s) with keeps := { Keeps.rfl with }, dhtTx := ?_ }
  cases hd : s.options.dht with
  | true => exact ⟨[cmd], by simp [dhtSend, hd], by simpa using h⟩
  | false => exact ⟨[], by simp [dhtSend, hd]⟩

lemma spawnIf_ctrl {t : Task} (hl : t.isLight) (h : ∀ r ∈ t.sessions, al.refs r) :
    Ctrl al s (s.spawnIf b t) := by
  refine { Ctrl.rfl (s := s) with keeps := { Keeps.rfl with }, tasks := ⟨_, rfl, ?_⟩ }
  cases b with
  | true => simpa using ⟨hl, h⟩
  | false => simp

lemma spawnFlushOne_ctrl (h : al.refs r) : Ctrl al s (s.spawnFlushOne r) :=
  spawnIf_ctrl rfl (by simpa using h)

lemma mem_entries_lookup {m : AList fun _ : Digest => β}
    {x : Sigma fun _ : Digest => β} (h : x ∈ m.entries) : m.lookup x.1 = some x.2 :=
  AList.mem_lookup_iff.2 h

lemma spawnFlushResume_ctrl (h : ∀ id r, s.torrents.lookup id = some r → al.refs r) :
    Ctrl al s s.spawnFlushResume :=
  spawnIf_ctrl rfl (forall_mem_map.2 fun x hx => h x.1 x.2 (mem_entries_lookup hx))

lemma persist_ctrl {ok : Bool} (h : ok → al.saves r) : Ctrl al s (s.persist r ok) := by
  refine { Ctrl.rfl (s := s) with keeps := { Keeps.rfl with }, resumeFiles id hid := ?_ }
  simp only [persist]
  split
  · rename_i hok
    exact AList.lookup_insert_ne (hid r (h (Bool.and_eq_true_iff.1 hok).1)).symm
  · rfl

lemma noteComplete_ctrl : Ctrl al s (s.noteComplete e r) :=
  modifySess_ctrl rfl

lemma modifyTable_ctrl {f : TorrentDownloadedState → TorrentDownloadedState} :
    Ctrl al s (s.modifyTable r f) :=
  modifySess_ctrl rfl

lemma evaluateQueue_cells (s : Session) (e : Env) :
    CellRun s.sig.ctl (s.evaluateQueue e).sig.ctl :=
  evaluateQueue_rec (I := fun g => CellRun s.sig.ctl g.ctl) .rfl
    (fun g hg a c _ => hg.trans (.setState g c a.1 a.2)) fun _ hg _ _ => hg

lemma evaluateQueue_ctrl : Ctrl al s (s.evaluateQueue e) := by
  refine { Ctrl.rfl (s := s) with
    keeps := { Keeps.rfl with infoHash := evaluateQueue_infoHash s e }
    idle c _ hi := ?_
    dhtTx := ?_
    cells := evaluateQueue_cells s e }
  · rwa [evaluateQueue_blocked hi.1]
  · obtain ⟨as, has, hmem⟩ := evaluateQueue_dhtTx s e
    refine ⟨as, has, fun cmd hc => ?_⟩
    obtain ⟨a, ha, rfl⟩ := hmem cmd hc
    obtain ⟨c, hcell, hb⟩ := (queueAssignments_mem ha).cell
    -- An assigned id is not idle, so telling the actor about it is always allowed.
    cases ht : a.2.transferEnabled with
    | false => trivial
    | true =>
      exact ⟨c, hcell, fun hidle => absurd (hb.symm.trans hidle.1) (by decide)⟩

lemma evaluateQueueIf_ctrl : Ctrl al s (s.evaluateQueueIf b e) := by
  cases b with
  | true => exact evaluateQueue_ctrl
  | false => exact .rfl

lemma foldl_ctrl {f : Session → β → Session} (l : List β)
    (h : ∀ s₁, Keeps s s₁ → ∀ x ∈ l, Ctrl al s₁ (f s₁ x)) : Ctrl al s (l.foldl f s) :=
  foldlRecOn l f .rfl fun s₁ h₁ x hx => h₁.trans (h s₁ h₁.keeps x hx)

/-! ## The operations -/

lemma after_ctrl {result : Except ControlError Session}
    (h : ∀ s', result = .ok s' → Ctrl al s s') : Ctrl al s (s.after result) := by
  cases result with
  | ok s' => exact h s' rfl
  | error _ => exact .rfl

lemma ok_after (s : Session) {result : Except ControlError Session} (h : result.isOk) :
    result = .ok (s.after result) := by
  cases result with
  | ok s' => rfl
  | error _ => cases h

lemma byId_ok {torrent pending : Nat → Session} {s' : Session}
    (h : s.byId id torrent pending = .ok s') :
    (∃ r, s.torrents.lookup id = some r ∧ s' = torrent r) ∨
      ∃ p, s.torrents.lookup id = none ∧ s.pending.lookup id = some p ∧ s' = pending p := by
  unfold byId at h
  cases ht : s.torrents.lookup id with
  | some r =>
    simp only [ht, Except.ok.injEq] at h
    exact .inl ⟨r, rfl, h.symm⟩
  | none =>
    cases hp : s.pending.lookup id with
    | none => simp [ht, hp] at h
    | some p =>
      simp only [ht, hp, Except.ok.injEq] at h
      exact .inr ⟨p, rfl, rfl, h.symm⟩

lemma onTorrent_ok {pending torrent : Nat → Except ControlError Session}
    {s' : Session} (h : s.onTorrent id pending torrent = .ok s') :
    (∃ p, s.pendingOnly id = some p ∧ pending p = .ok s') ∨
      ∃ r, s.torrents.lookup id = some r ∧ torrent r = .ok s' := by
  unfold onTorrent at h
  cases hp : s.pendingOnly id with
  | some p => exact .inl ⟨p, rfl, by simpa only [hp] using h⟩
  | none =>
    cases ht : s.torrents.lookup id with
    | none => simp [ht, hp] at h
    | some r => exact .inr ⟨r, rfl, by simpa only [hp, ht] using h⟩

/-- What both calls for file priorities do. -/
def Reprioritizes (s : Session) (e : Env) (id : TorrentId) (s' : Session) : Prop :=
  (∃ (p : Nat) (f : PendingTorrent → List FilePriority),
      s' = s.modifyPend p fun t => { t with filePriorities := f t }) ∨
    ∃ r f, s.torrents.lookup id = some r ∧ s' = (s.modifyTable r f).afterContentChange e r id

lemma setFilePriority_ok {i : Nat} {prio : FilePriority} {s' : Session}
    (h : s.setFilePriority e id i prio = .ok s') : s.Reprioritizes e id s' := by
  rcases onTorrent_ok h with ⟨p, -, h⟩ | ⟨r, hr, h⟩
  · cases h
    exact .inl ⟨p, _, rfl⟩
  · split at h <;> cases h
    exact .inr ⟨r, _, hr, rfl⟩

lemma setFilePriorities_ok {prios : List FilePriority} {s' : Session}
    (h : s.setFilePriorities e id prios = .ok s') : s.Reprioritizes e id s' := by
  rcases onTorrent_ok h with ⟨p, -, h⟩ | ⟨r, hr, h⟩ <;> cases h
  · exact .inl ⟨p, _, rfl⟩
  · exact .inr ⟨r, _, hr, rfl⟩

lemma cellOf_torrent (h : s.torrents.lookup id = some r) : s.cellOf id = some (s.sess r).ctl := by
  rw [cellOf, h]

lemma cellOf_pending (h : s.torrents.lookup id = none)
    (hp : s.pending.lookup id = some p) : s.cellOf id = some (s.pend p).ctl := by
  rw [cellOf, h, hp]
  rfl

/-- The operations on the order of the pieces, the tags, the limits and the categories. -/
def Op.isSetting : Op → Bool
  | .setSequential .. | .withTags _ | .setShareLimits _ | .setCategory .. | .createCategory ..
  | .editCategory .. => true
  | _ => false

/-- What such an operation does. -/
inductive Retouches (s : Session) : Session → Prop
  | categories (cats : Categories) : Retouches s { s with categories := cats }
  | flush {id : TorrentId} {r : Nat} :
    s.torrents.lookup id = some r → Retouches s (s.spawnFlushOne r)
  | pend (cats : Categories) (p : Nat) (sequential : PendingTorrent → Bool)
    (category : PendingTorrent → Bytes) :
    Retouches s ({ s with categories := cats }.modifyPend p fun t =>
      { t with sequential := sequential t, category := category t })
  | sess (cats : Categories) {id : TorrentId} {r : Nat} (pipe : TorrentSession → Pipeline)
    (category : TorrentSession → Bytes) : s.torrents.lookup id = some r →
    Retouches s (({ s with categories := cats }.modifySess r fun t =>
      { t with pipe := pipe t, category := category t }).spawnFlushOne r)

lemma control_retouches {o : Op} (ho : o.isSetting) : Retouches s (s.control e o) := by
  have hafter {result : Except ControlError Session}
      (h : ∀ s', result = .ok s' → Retouches s s') : Retouches s (s.after result) := by
    cases result with
    | ok s' => exact h s' rfl
    | error _ => exact .categories s.categories
  cases o with
  | setSequential id b =>
    refine hafter fun s' h => ?_
    rcases onTorrent_ok h with ⟨p, -, h⟩ | ⟨r, hr, h⟩ <;> cases h
    · exact .pend _ p (fun _ => b) (·.category)
    · exact .sess _ (fun t => { t.pipe with table := { t.pipe.table with sequential := b } })
        (·.category) hr
  | withTags id =>
    refine hafter fun s' h => ?_
    rcases onTorrent_ok h with ⟨p, -, h⟩ | ⟨r, hr, h⟩ <;> cases h
    · exact .categories _
    · exact .flush hr
  | setShareLimits id =>
    refine hafter fun s' h => ?_
    rcases byId_ok h with ⟨r, hr, rfl⟩ | ⟨p, -, -, rfl⟩
    · exact .flush hr
    · exact .categories _
  | setCategory id category saved =>
    simp only [control, setCategory, after]
    split
    · rename_i h
      split_ifs at h
      rcases onTorrent_ok h with ⟨p, -, h⟩ | ⟨r, hr, h⟩ <;> cases h
      · exact .pend _ p (·.sequential) fun _ => category
      · exact .sess _ (·.pipe) (fun _ => category) hr
    · exact .categories _
  | createCategory name path =>
    refine hafter fun s' h => ?_
    unfold createCategory at h
    split_ifs at h <;> cases h
    · exact .categories _
    · exact .categories _
  | editCategory name path =>
    refine hafter fun s' h => ?_
    unfold editCategory at h
    split_ifs at h
    cases h
    exact .categories _
  | _ => cases ho

/-- The cells an operation may make active again. -/
def Op.wakes (s : Session) : Op → Nat → Prop
  | .resume id, c | .setForceStart id true, c => s.cellOf id = some c
  | .setFilePriority id _ _, c | .setFilePriorities id _, c =>
    ∃ r, s.torrents.lookup id = some r ∧ (s.sess r).ctl = c ∧
      s.state c ≠ .paused ∧ s.state c ≠ .checking
  | _, _ => False

/-- The places an operation may give to the files of a session. -/
def Op.moves (s : Session) : Op → Nat → Storage × Bytes → Prop
  | .setSavePath id path false, r, pl =>
    s.torrents.lookup id = some r ∧ pl = ((s.sess r).storage, path)
  | _, _, _ => False

def Op.movesPend (s : Session) : Op → Nat → Bytes → Prop
  | .setSavePath id path _, p, dir => s.pendingOnly id = some p ∧ dir = path
  | _, _, _ => False

section

variable (hin : ∀ id r, s.torrents.lookup id = some r → al.refs r) {id : TorrentId} {name : Bytes}
include hin

variable {s' : Session}

lemma pause_ctrl (h : s.pause e id = .ok s') : Ctrl al s s' := by
  rcases byId_ok h with ⟨r, hr, rfl⟩ | ⟨p, -, -, rfl⟩
  · exact (((setTorrentState_ctrl (.inl rfl)).trans (dhtSend_ctrl (by trivial))).trans
      (spawnFlushOne_ctrl (hin id r hr))).trans evaluateQueue_ctrl
  · exact ((setPendingState_ctrl (.inl rfl)).trans (dhtSend_ctrl (by trivial))).trans evaluateQueue_ctrl

omit hin in
lemma setGlobal_ctrl {d : DownloadState} : Ctrl al s { s with downloadState := d } :=
  { Ctrl.rfl (s := s) with keeps := { Keeps.rfl with } }

lemma pauseAll_ctrl : Ctrl al s s.pauseAll :=
  ((setGlobal_ctrl.trans (setAll_ctrl (forall_mem_append.2 ⟨forall_mem_map.2 fun _ _ => .inl rfl,
    forall_mem_map.2 fun _ _ => .inl rfl⟩))).trans (dhtSend_ctrl (by trivial))).trans (spawnFlushResume_ctrl hin)

lemma resumeAll_ctrl (hw : ∀ id r, s.torrents.lookup id = some r → al.wakes (s.sess r).ctl)
    (hwp : ∀ id p, s.pending.lookup id = some p → al.wakes (s.pend p).ctl) :
    Ctrl al s (s.resumeAll e) := by
  refine (((setGlobal_ctrl.trans (setAll_ctrl fun x hx => ?_)).trans evaluateQueue_ctrl).trans
    (dhtSend_ctrl (by trivial))).trans (spawnFlushResume_ctrl hin)
  rcases mem_append.1 hx with hx | hx <;> obtain ⟨y, hy, rfl⟩ := mem_map.1 hx
  · exact .inr (hw y.1 y.2 (mem_entries_lookup hy))
  · exact .inr (hwp y.1 y.2 (mem_entries_lookup hy))

omit hin in
lemma resumeTail_ctrl {c : Nat} (hc : s.cellOf id = some c)
    (hw : al.wakes c) : Ctrl al s (s.resumeTail e id c) := by
  have h₁ : Ctrl al s { s with downloadState := .downloading } := setGlobal_ctrl
  have h := h₁.trans (evaluateQueue_ctrl (e := e))
  refine h.trans (dhtSend_ctrl ?_)
  generalize TorrentState.transferEnabled _ = active
  cases active with
  | false => trivial
  | true => exact ⟨c, (h.keeps.cellOf id).trans hc, fun _ => hw⟩

lemma resume_ctrl (hw : ∀ c, s.cellOf id = some c → al.wakes c)
    (h : s.resume e id = .ok s') : Ctrl al s s' := by
  rcases byId_ok h with ⟨r, hr, rfl⟩ | ⟨p, hr, hp, rfl⟩
  · have hcell := cellOf_torrent hr
    have h₁ : Ctrl al s (s.setTorrentState r id (s.activeState r)) :=
      setTorrentState_ctrl (.inr (hw _ hcell))
    exact (h₁.trans (resumeTail_ctrl ((h₁.keeps.cellOf id).trans hcell) (hw _ hcell))).trans
      (spawnFlushOne_ctrl (hin id r hr))
  · have hcell := cellOf_pending hr hp
    have h₁ : Ctrl al s (s.setPendingState p id .metadata) :=
      setPendingState_ctrl (.inr (hw _ hcell))
    exact h₁.trans (resumeTail_ctrl ((h₁.keeps.cellOf id).trans hcell) (hw _ hcell))

lemma setForceStart_ctrl {enabled : Bool}
    (hw : enabled → ∀ c, s.cellOf id = some c → al.wakes c)
    (h : s.setForceStart e id enabled = .ok s') : Ctrl al s s' := by
  rcases byId_ok h with ⟨r, hr, rfl⟩ | ⟨p, hr, hp, rfl⟩
  · have h₁ : Ctrl al s (s.modifySess r fun t => { t with forceStart := enabled }) :=
      modifySess_ctrl rfl
    refine ((h₁.trans (setTorrentStateIf_ctrl fun hb _ => .inr ?_)).trans evaluateQueue_ctrl).trans
      (spawnFlushOne_ctrl (hin id r hr))
    exact h₁.keeps.ctl r ▸ hw hb _ (cellOf_torrent hr)
  · have h₁ : Ctrl al s (s.modifyPend p fun t => { t with forceStart := enabled }) :=
      modifyPend_ctrl rfl
    refine (h₁.trans (setPendingStateIf_ctrl fun hb => .inr ?_)).trans evaluateQueue_ctrl
    exact h₁.keeps.pendCtl p ▸ hw hb _ (cellOf_pending hr hp)

omit hin in
lemma afterContentChange_ctrl {r : Nat} (hr : al.refs r)
    (hw : s.state (s.sess r).ctl ≠ .paused → s.state (s.sess r).ctl ≠ .checking →
      al.wakes (s.sess r).ctl) : Ctrl al s (s.afterContentChange e r id) := by
  refine ((((setTorrentStateIf_ctrl fun hb _ => .inr ?_).trans noteComplete_ctrl).trans
    emitIf_ctrl).trans (spawnIf_ctrl rfl (by simpa using hr))).trans
      evaluateQueue_ctrl |>.trans (spawnFlushOne_ctrl hr)
  obtain ⟨h₁, h₂⟩ := of_decide_eq_true hb
  exact hw h₁ h₂

lemma reprioritizes_ctrl (hw : ∀ r, s.torrents.lookup id = some r →
      s.state (s.sess r).ctl ≠ .paused → s.state (s.sess r).ctl ≠ .checking →
      al.wakes (s.sess r).ctl) (h : s.Reprioritizes e id s') : Ctrl al s s' := by
  rcases h with ⟨p, f, rfl⟩ | ⟨r, f, hr, rfl⟩
  · exact modifyPend_ctrl rfl
  · have h₁ : Ctrl al s (s.modifyTable r f) := modifyTable_ctrl
    refine h₁.trans (afterContentChange_ctrl (hin id r hr) fun hp hc => ?_)
    rw [h₁.keeps.ctl] at hp hc ⊢
    exact hw r hr hp hc

lemma setSavePath_false_ctrl {path : Bytes}
    (hm : ∀ r, s.torrents.lookup id = some r → al.moves r ((s.sess r).storage, path))
    (hp : ∀ p, s.pendingOnly id = some p → al.movesPend p path)
    (h : s.setSavePath id path false = .ok s') : Ctrl al s s' := by
  rcases onTorrent_ok h with ⟨p, hpo, h⟩ | ⟨r, hr, h⟩ <;> cases h
  · exact movePend_ctrl (by intro; rfl) (.inr (hp p hpo))
  · have h₁ : Ctrl al s (s.modifySess r fun t => { t with autoTmm := false }) :=
      modifySess_ctrl rfl
    refine (h₁.trans (moveSess_ctrl (by intro; rfl) (.inr ?_))).trans
      (spawnFlushOne_ctrl (hin id r hr))
    simpa [modifySess, TorrentSession.place] using hm r hr

omit hin in
lemma setCategories_ctrl {cats : Categories} : Ctrl al s { s with categories := cats } :=
  { Ctrl.rfl (s := s) with keeps := { Keeps.rfl with } }

lemma Retouches.ctrl (h : Retouches s s') : Ctrl al s s' := by
  cases h with
  | categories cats => exact setCategories_ctrl
  | flush hr => exact spawnFlushOne_ctrl (hin _ _ hr)
  | pend => exact setCategories_ctrl.trans (modifyPend_ctrl rfl)
  | sess _ _ _ hr =>
    exact (setCategories_ctrl.trans (modifySess_ctrl (by rfl))).trans (spawnFlushOne_ctrl (hin _ _ hr))

lemma removeCategory_ctrl (h : s.removeCategory name = .ok s') : Ctrl al s s' := by
  unfold removeCategory at h
  split at h <;> cases h
  refine { Ctrl.rfl (s := s) with
    keeps := { Keeps.rfl with sess r := ?_, pend p := ?_ }
    tasks := ⟨_, rfl, ?_⟩
    place r := .inl ?_
    outputDir p := .inl ?_ }
  · dsimp only
    split <;> rfl
  · dsimp only
    split <;> rfl
  · intro t ht
    split at ht
    · obtain ⟨r, hr, rfl⟩ := mem_map.1 ht
      obtain ⟨x, hx, rfl⟩ := mem_map.1 (mem_of_mem_filter hr)
      exact ⟨rfl, by simpa using hin x.1 x.2 (mem_entries_lookup hx)⟩
    · cases ht
  · dsimp only
    split <;> rfl
  · dsimp only
    split <;> rfl

omit hin in
lemma applyQueueOrder_ctrl {ids : List TorrentId} : Ctrl al s (s.applyQueueOrder ids) := by
  refine Ctrl.trans (foldl_ctrl _ fun s₁ _ x _ => ?_)
    { Ctrl.rfl (s := _) with keeps := { Keeps.rfl with } }
  have hpos : Ctrl al s₁ (s₁.setTorrentPosition x.1 x.2) := by
    unfold setTorrentPosition
    split
    · exact modifySess_ctrl rfl
    · exact .rfl
  refine hpos.trans ?_
  unfold setPendingPosition
  split
  · exact modifyPend_ctrl rfl
  · exact .rfl

lemma setQueuePosition_ctrl {pos : Nat}
    (h : s.setQueuePosition e id pos = .ok s') : Ctrl al s s' := by
  unfold setQueuePosition at h
  split at h <;> cases h
  have hord : ∀ ids, Ctrl al s (s.applyQueueOrder ids) := fun _ => applyQueueOrder_ctrl
  refine ((hord _).trans evaluateQueue_ctrl).trans (spawnFlushResume_ctrl fun id' r hr => ?_)
  exact hin id' r ((hord _).keeps.torrents ▸ hr)

omit hin in
lemma seedIf_ctrl {b : Bool} {c : Nat} : Ctrl al s (s.seedIf b c id) := by
  unfold seedIf
  split
  · rename_i hb
    refine (writeCell_ctrl (fun hi => ?_) (.seed s.sig hb.2)).trans emit_ctrl
    exact absurd hi.1 (by rw [show (s.sig.ctl c).torrentState = _ from hb.2]; decide)
  · exact .rfl

omit hin in
lemma tickOne_ctrl {x : Sigma fun _ : Digest => Nat} : Ctrl al s (s.tickOne e x) :=
  (noteComplete_ctrl.trans emitIf_ctrl).trans seedIf_ctrl

lemma tick_ctrl : Ctrl al s (s.tick e) := by
  have h₁ : Ctrl al s (s.torrents.entries.foldl (fun s x => s.tickOne e x) s) :=
    foldl_ctrl _ fun _ _ _ _ => tickOne_ctrl
  refine (h₁.trans (foldl_ctrl _ fun s₂ hk id _ => after_ctrl fun s' h => ?_)).trans
    evaluateQueue_ctrl
  refine pause_ctrl (fun id r hr => hin id r ?_) h
  rwa [hk.torrents, h₁.keeps.torrents] at hr

end

end Session

end BitRev
