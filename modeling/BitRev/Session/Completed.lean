import BitRev.Session.Changes

/-!
# Completed torrents

`completed_at` of a torrent is set once, and `Completed` says so. A tick and a change of file
priorities do both at once; the writer task sets it, syncs the files and then sends the event
(`Task.syncs`). A recheck, and adding a torrent whose data is there, set it and say nothing.

`Mute s s'` says that a piece of code neither sets nor announces, `Rings s s'` that it does both for
the same torrents. `Watch` is a session with what an observer counts: how often `completed_at` of
each session object has gone from `None` to `Some`, and how often `Completed` was sent for an id
since the torrent of that id last changed.
-/

namespace BitRev

open Session List Option

/-- What of a session object this is about. -/
def TorrentSession.marks (t : TorrentSession) : Option Nat × Torrent × Bool :=
  (t.completedAt, t.torrent, t.running)

/-- The writer of the session `r` syncs at completion, and sends `Completed` next. -/
def Task.syncs (r : Nat) : Task → Bool
  | .writer r' .syncing => r' = r
  | _ => false

namespace Session

/-- How often `Completed` was sent for an id. -/
def said (s : Session) (id : TorrentId) : Nat := s.sig.events.count (.completed id)

def syncing (s : Session) (r : Nat) : Nat := s.tasks.countP (Task.syncs r)

def Placed (s : Session) : Prop :=
  ∀ id r, s.torrents.lookup id = some r →
    (s.sess r).torrent.infoHash = id ∧ (s.sess r).running

/-- How often `completed_at` of a session object goes from `None` to `Some`. -/
def rose (s s' : Session) (r : Nat) : Nat :=
  if (s.sess r).completedAt = none ∧ (s'.sess r).completedAt ≠ none then 1 else 0

end Session

/-- Nothing is said about completion, and no `completed_at` changes. -/
structure Mute (s s' : Session) : Prop where
  torrents : s'.torrents = s.torrents
  nextSess : s'.nextSess = s.nextSess
  marks : ∀ r, (s'.sess r).marks = (s.sess r).marks
  said : ∀ id, s'.said id = s.said id
  syncing : ∀ r, s'.syncing r = s.syncing r

structure Rings (s s' : Session) : Prop where
  torrents : s'.torrents = s.torrents
  nextSess : s'.nextSess = s.nextSess
  torrent : ∀ r, (s'.sess r).torrent = (s.sess r).torrent
  running : ∀ r, (s'.sess r).running = (s.sess r).running
  /-- Once set, `completed_at` stays, and it is set for torrents that are in use. -/
  noted : ∀ r, (s'.sess r).completedAt = (s.sess r).completedAt ∨
    (s.sess r).completedAt = none ∧ (s.sess r).running
  said : ∀ id, s.said id ≤ s'.said id
  tells : ∀ id r, s.torrents.lookup id = some r →
    s'.said id + s'.syncing r = s.said id + s.syncing r + s.rose s' r
  other : ∀ id, s.torrents.lookup id = none → s'.said id = s.said id

namespace Mute

variable {s s₁ s' : Session}

lemma rfl : Mute s s := ⟨.refl _, .refl _, fun _ => .refl _, fun _ => .refl _, fun _ => .refl _⟩

lemma trans (h : Mute s s₁) (h' : Mute s₁ s') : Mute s s' :=
  ⟨h'.torrents.trans h.torrents, h'.nextSess.trans h.nextSess, fun r => (h'.marks r).trans (h.marks
    r), fun id => (h'.said id).trans (h.said id), fun r => (h'.syncing r).trans (h.syncing r)⟩

lemma completedAt (h : Mute s s') (r : Nat) :
    (s'.sess r).completedAt = (s.sess r).completedAt := congrArg (·.1) (h.marks r)

lemma torrent (h : Mute s s') (r : Nat) : (s'.sess r).torrent = (s.sess r).torrent :=
  congrArg (·.2.1) (h.marks r)

lemma running (h : Mute s s') (r : Nat) : (s'.sess r).running = (s.sess r).running :=
  congrArg (·.2.2) (h.marks r)

lemma foldl {β : Type} {f : Session → β → Session} (l : List β)
    (h : ∀ s₁, ∀ x ∈ l, Mute s₁ (f s₁ x)) : Mute s (l.foldl f s) :=
  foldlRecOn l f .rfl fun s₁ h₁ x hx => h₁.trans (h s₁ x hx)

lemma rings (h : Mute s s') : Rings s s' where
  torrents := h.torrents
  nextSess := h.nextSess
  torrent := h.torrent
  running := h.running
  noted r := .inl (h.completedAt r)
  said id := (h.said id).ge
  tells id r _ := by
    have hrose : s.rose s' r = 0 := if_neg fun hr => hr.2 ((h.completedAt r).trans hr.1)
    rw [h.said, h.syncing, hrose, Nat.add_zero]
  other id _ := h.said id

end Mute

namespace Rings

variable {s s₁ s' : Session}

/-- A `completed_at` that is set in two pieces of code is set in one of them. -/
lemma rose_trans (h : Rings s s₁) (h' : Rings s₁ s') (r : Nat) :
    s.rose s' r = s.rose s₁ r + s₁.rose s' r := by
  unfold rose
  rcases h.noted r with h₁ | ⟨h₁, -⟩ <;> rcases h'.noted r with h₂ | ⟨h₂, -⟩
  · simp [h₁, h₂]
  · simp [← h₁, h₂]
  · simp [h₁, h₂]
  · simp [h₁, h₂]

lemma trans (h : Rings s s₁) (h' : Rings s₁ s') : Rings s s' where
  torrents := h'.torrents.trans h.torrents
  nextSess := h'.nextSess.trans h.nextSess
  torrent r := (h'.torrent r).trans (h.torrent r)
  running r := (h'.running r).trans (h.running r)
  noted r := by
    rcases h'.noted r with h₂ | ⟨h₂, h₃⟩
    · rw [h₂]
      exact h.noted r
    · rcases h.noted r with h₁ | h₁
      · exact .inr ⟨h₁ ▸ h₂, h.running r ▸ h₃⟩
      · exact .inr h₁
  said id := (h.said id).trans (h'.said id)
  tells id r hr := by
    have h₁ := h.tells id r hr
    have h₂ := h'.tells id r (h.torrents ▸ hr)
    rw [rose_trans h h']
    omega
  other id hid := (h'.other id (h.torrents ▸ hid)).trans (h.other id hid)

lemma placed (h : Rings s s') (hp : s.Placed) : s'.Placed := by
  intro id r hr
  rw [h.torrent, h.running]
  exact hp id r (h.torrents ▸ hr)

end Rings

namespace Session

variable {x : Ext} {s s₁ s' : Session} {e : Env} {id : TorrentId} {st : TorrentState} {r p : Nat}
  {b : Bool} {t : Task} {after : AfterMove} {saved : Nat → Bool}

/-! ## Code that says nothing -/

lemma rings_foldl {β : Type} {f : Session → β → Session} (l : List β)
    (h : ∀ s₁, Rings s s₁ → ∀ x ∈ l, Rings s₁ (f s₁ x)) : Rings s (l.foldl f s) :=
  foldlRecOn l f Mute.rfl.rings fun s₁ h₁ x hx => h₁.trans (h s₁ h₁ x hx)

/-- Only the signals change, and no completion is said. -/
lemma sig_mute {g : Signals}
    (h : ∀ id, g.events.count (.completed id) = s.sig.events.count (.completed id)) :
    Mute s { s with sig := g } :=
  ⟨rfl, rfl, fun _ => rfl, h, fun _ => rfl⟩

lemma setState_count (g : Signals) (c : Nat) (i : TorrentId) (st : TorrentState) (id : TorrentId) :
    (g.setState c i st).events.count (.completed id) = g.events.count (.completed id) := by
  unfold Signals.setState
  dsimp only
  split
  · rfl
  · simp [count_append]

lemma setCell_mute {c : Nat} : Mute s { s with sig := s.sig.setState c id st } :=
  sig_mute (setState_count s.sig c id st)

lemma setTorrentState_mute : Mute s (s.setTorrentState r id st) := setCell_mute

lemma setPendingState_mute : Mute s (s.setPendingState p id st) := setCell_mute

lemma setTorrentStateIf_mute : Mute s (s.setTorrentStateIf b r id st) := by
  cases b with
  | true => exact setCell_mute
  | false => exact .rfl

lemma setPendingStateIf_mute : Mute s (s.setPendingStateIf b p id st) := by
  cases b with
  | true => exact setCell_mute
  | false => exact .rfl

lemma setAll_mute {cells : List (Nat × TorrentId × TorrentState)} : Mute s (s.setAll cells) :=
  foldlRecOn (motive := fun g => Mute s { s with sig := g }) cells _ .rfl fun g hg _ _ =>
    hg.trans (setCell_mute (s := { s with sig := g }))

lemma emit_mute {ev : SessionEvent} (h : ∀ id, ev ≠ .completed id) :
    Mute s (s.emit ev) := by
  refine sig_mute fun id => ?_
  simp [Signals.emit, count_append, h id]

lemma dhtSend_mute {cmd : DhtCmd} : Mute s (s.dhtSend cmd) := sig_mute fun _ => rfl

lemma spawn_mute (h : (t.syncs ·) = fun _ => false) : Mute s (s.spawn t) := by
  refine ⟨rfl, rfl, fun _ => rfl, fun _ => rfl, fun r => ?_⟩
  simp [syncing, spawn, countP_append, congrFun h r]

lemma spawnIf_mute (h : (t.syncs ·) = fun _ => false) : Mute s (s.spawnIf b t) := by
  cases b with
  | true => exact spawn_mute h
  | false => exact ⟨rfl, rfl, fun _ => rfl, fun _ => rfl, fun r => by simp [syncing, spawnIf]⟩

lemma spawnFlushOne_mute : Mute s (s.spawnFlushOne r) := spawnIf_mute rfl

lemma spawnFlushResume_mute : Mute s s.spawnFlushResume := spawnIf_mute rfl

lemma persist_mute {ok : Bool} : Mute s (s.persist r ok) :=
  { Mute.rfl with }

lemma setGlobal_mute {d : DownloadState} : Mute s { s with downloadState := d } :=
  { Mute.rfl with }

lemma setCategories_mute {cats : Categories} : Mute s { s with categories := cats } :=
  { Mute.rfl with }

lemma modifySess_mute {f : TorrentSession → TorrentSession}
    (h : (fun t => (f t).marks) = TorrentSession.marks) : Mute s (s.modifySess r f) :=
  ⟨rfl, rfl, modifySess_sess (f := f) _ (congrFun h) s r, fun _ => rfl, fun _ => rfl⟩

lemma modifyPend_mute {f : PendingTorrent → PendingTorrent} : Mute s (s.modifyPend p f) :=
  { Mute.rfl with }

lemma modifyTable_mute {f : TorrentDownloadedState → TorrentDownloadedState} :
    Mute s (s.modifyTable r f) := modifySess_mute rfl

lemma seedIf_mute {c : Nat} : Mute s (s.seedIf b c id) := by
  unfold seedIf
  split
  · refine sig_mute fun i => ?_
    simp [Signals.emit, Signals.writeState, count_append]
  · exact .rfl

lemma evaluateQueue_mute : Mute s (s.evaluateQueue e) :=
  sig_mute fun id => evaluateQueue_rec
    (I := fun g => g.events.count (.completed id) = s.sig.events.count (.completed id)) rfl
    (fun g hg a c _ => (setState_count g c a.1 a.2 id).trans hg) fun _ hg _ _ => hg

lemma evaluateQueueIf_mute : Mute s (s.evaluateQueueIf b e) := by
  cases b with
  | true => exact evaluateQueue_mute
  | false => exact .rfl

lemma noteComplete_mute (h : s.firstComplete r = false) : Mute s (s.noteComplete e r) := by
  refine ⟨rfl, rfl, fun r' => ?_, fun _ => rfl, fun _ => rfl⟩
  rcases eq_or_ne r' r with rfl | hne
  · simp only [noteComplete, modifySess, Function.update_self, TorrentSession.marks]
    rw [firstComplete, isComplete, Bool.and_eq_false_iff] at h
    rcases h with h | h
    · simp [h]
    · cases hc : (s.sess r').completedAt with
      | none => simp [hc] at h
      | some n => simp
  · simp only [noteComplete, modifySess, Function.update_of_ne hne]

lemma applyQueueOrder_mute {ids : List TorrentId} : Mute s (s.applyQueueOrder ids) := by
  refine Mute.trans (.foldl _ fun s₁ x _ => ?_) { Mute.rfl with }
  have hpos : Mute s₁ (s₁.setTorrentPosition x.1 x.2) := by
    unfold setTorrentPosition
    split
    · exact modifySess_mute rfl
    · exact .rfl
  refine hpos.trans ?_
  unfold setPendingPosition
  split
  · exact modifyPend_mute
  · exact .rfl

lemma beginRelocate_mute {newOutput : Bytes} : Mute s (s.beginRelocate r newOutput after) :=
  setTorrentState_mute.trans (spawn_mute rfl)

lemma afterMove_mute : Mute s (s.afterMove r saved after) := by
  cases after with
  | done => exact .rfl
  | recheck => exact spawnFlushOne_mute
  | writer => exact persist_mute.trans (spawn_mute rfl)

lemma maybeMoveOnComplete_mute : Mute s (s.maybeMoveOnComplete r saved after) := by
  unfold maybeMoveOnComplete
  split
  · exact beginRelocate_mute
  · exact afterMove_mute

lemma pause_mute (h : s.pause e id = .ok s') : Mute s s' := by
  rcases byId_ok h with ⟨r, -, rfl⟩ | ⟨p, -, -, rfl⟩
  · exact ((setTorrentState_mute.trans dhtSend_mute).trans spawnFlushOne_mute).trans
      evaluateQueue_mute
  · exact (setPendingState_mute.trans dhtSend_mute).trans evaluateQueue_mute

lemma after_mute {result : Except ControlError Session}
    (h : ∀ s', result = .ok s' → Mute s s') : Mute s (s.after result) := by
  cases result with
  | ok s' => exact h s' rfl
  | error _ => exact .rfl

/-! ## Code that sets and says -/

lemma emitIf_sess (s : Session) (b : Bool) (ev : SessionEvent) : (s.emitIf b ev).sess = s.sess :=
  rfl

lemma noteComplete_ne {r r' : Nat} (h : r' ≠ r) : (s.noteComplete e r).sess r' = s.sess r' :=
  Function.update_of_ne h ..

/-- A torrent object is in the session under one id only. -/
lemma Placed.eq_iff (hp : s.Placed) {i : TorrentId} {r' : Nat}
    (hr : s.torrents.lookup id = some r) (hi : s.torrents.lookup i = some r') : r' = r ↔ i = id := by
  constructor
  · rintro rfl
    exact (hp i r' hi).1.symm.trans (hp id r' hr).1
  · rintro rfl
    exact some.inj (hi.symm.trans hr)

lemma count_completed (events : List SessionEvent) (i : TorrentId) :
    (events ++ [SessionEvent.completed id]).count (.completed i) =
      events.count (.completed i) + if i = id then 1 else 0 := by
  rcases eq_or_ne i id with rfl | h
  · simp
  · simp [h, h.symm]

/-- What is set when the last piece is there. -/
lemma noteComplete_rose (h : s.firstComplete r) (r' : Nat) :
    (s.sess r).completedAt = none ∧ s.rose (s.noteComplete e r) r' = if r' = r then 1 else 0 := by
  rw [firstComplete, isComplete, Bool.and_eq_true, isNone_iff_eq_none] at h
  obtain ⟨hcomp, hnone⟩ := h
  refine ⟨hnone, ?_⟩
  unfold rose
  split_ifs with hr heq heq
  · rfl
  · rw [noteComplete_ne heq] at hr
    exact absurd hr.1 hr.2
  · subst heq
    exact absurd ⟨hnone, by simp [noteComplete, modifySess, hcomp, hnone]⟩ hr
  · rfl

lemma noteComplete_rings (hp : s.Placed) (hr : s.torrents.lookup id = some r) :
    Rings s ((s.noteComplete e r).emitIf (s.firstComplete r) (.completed id)) := by
  cases hf : s.firstComplete r with
  | false => exact ((noteComplete_mute hf).trans (sig_mute fun _ => rfl)).rings
  | true =>
    have hkeep : Ctrl .none s (s.noteComplete e r) := noteComplete_ctrl
    have hsaid : ∀ i, ((s.noteComplete e r).emitIf true (.completed id)).said i =
        s.said i + if i = id then 1 else 0 := count_completed s.sig.events
    refine ⟨rfl, rfl, hkeep.keeps.torrent, hkeep.keeps.running, fun r' => ?_, fun i => ?_,
      fun i r' hi => ?_, fun i hi => ?_⟩
    · rcases eq_or_ne r' r with rfl | h
      · exact .inr ⟨(noteComplete_rose (e := e) hf r').1, (hp id r' hr).2⟩
      · exact .inl (congrArg _ (noteComplete_ne h))
    · rw [hsaid]
      exact Nat.le_add_right ..
    · rw [hsaid, rose, emitIf_sess, ← rose, (noteComplete_rose hf r').2,
        if_congr (hp.eq_iff hr hi) rfl rfl]
      exact Nat.add_right_comm ..
    · rw [hsaid, if_neg]
      · rfl
      · rintro rfl
        cases hi.symm.trans hr

lemma afterContentChange_rings (hp : s.Placed)
    (hr : s.torrents.lookup id = some r) : Rings s (s.afterContentChange e r id) := by
  unfold afterContentChange
  extract_lets st first s₁ s₂
  have h₁ : Rings s s₁ := setTorrentStateIf_mute.rings
  have h₂ : Rings s₁ ((s₁.noteComplete e r).emitIf (s₁.firstComplete r) (.completed id)) :=
    noteComplete_rings (h₁.placed hp) hr
  exact ((h₁.trans h₂).trans (spawnIf_mute rfl).rings).trans
    (evaluateQueue_mute.trans spawnFlushOne_mute).rings

lemma reprioritizes_rings (hp : s.Placed) (h : s.Reprioritizes e id s') : Rings s s' := by
  rcases h with ⟨p, f, rfl⟩ | ⟨r, f, hr, rfl⟩
  · exact modifyPend_mute.rings
  · have h₁ : Rings s (s.modifyTable r f) := modifyTable_mute.rings
    exact h₁.trans (afterContentChange_rings (h₁.placed hp) hr)

lemma after_rings {result : Except ControlError Session}
    (h : ∀ s', result = .ok s' → Rings s s') : Rings s (s.after result) := by
  cases result with
  | ok s' => exact h s' rfl
  | error _ => exact Mute.rfl.rings

lemma tick_rings (hp : s.Placed) : Rings s (s.tick e) := by
  have h₁ : Rings s (s.torrents.entries.foldl (fun s x => s.tickOne e x) s) := by
    refine rings_foldl _ fun s₁ h y hy => ?_
    have hy' : s₁.torrents.lookup y.1 = some y.2 := h.torrents ▸ mem_entries_lookup hy
    exact (noteComplete_rings (h.placed hp) hy').trans seedIf_mute.rings
  refine h₁.trans (Mute.trans (.foldl _ fun s₂ id _ => ?_) evaluateQueue_mute).rings
  exact after_mute fun s' h => pause_mute h

lemma writerWrote_rings {pipe : Pipeline} {ok : Bool}
    (hrun : (s.sess r).running) : Rings s (s.writerWrote e r pipe ok saved) := by
  unfold writerWrote
  extract_lets s₁
  have h₁ : Mute s s₁ := modifySess_mute rfl
  split
  · split_ifs with hf
    · refine h₁.rings.trans ?_
      have hkeep : Ctrl .none s₁ (s₁.noteComplete e r) := noteComplete_ctrl
      have hsync : ∀ r', ((s₁.noteComplete e r).spawn (.writer r .syncing)).syncing r' =
          s₁.syncing r' + if r = r' then 1 else 0 := by
        intro r'
        simp [syncing, spawn, noteComplete, modifySess, countP_append, Task.syncs, countP_singleton]
      refine ⟨rfl, rfl, hkeep.keeps.torrent, hkeep.keeps.running, fun r' => ?_, fun _ => le_rfl,
        fun i r' _ => ?_, fun _ _ => rfl⟩
      · rcases eq_or_ne r' r with rfl | h
        · exact .inr ⟨(noteComplete_rose (e := e) hf r').1, (h₁.running r').trans hrun⟩
        · exact .inl (congrArg _ (noteComplete_ne h))
      · have hrose : s₁.rose ((s₁.noteComplete e r).spawn (.writer r .syncing)) r' =
            if r = r' then 1 else 0 :=
          (noteComplete_rose hf r').2.trans (if_congr eq_comm rfl rfl)
        rw [hsync, hrose, ← Nat.add_assoc]
        rfl
    · exact (h₁.trans (persist_mute.trans (spawn_mute rfl))).rings
  · exact (h₁.trans (spawn_mute rfl)).rings

lemma without_mute {n : Nat} (ht : s.tasks[n]? = some t)
    (h : ∀ r, t.syncs r = false) : Mute s (s.without n) := by
  refine ⟨rfl, rfl, fun _ => rfl, fun _ => rfl, fun r => ?_⟩
  have hcount := Pool.countP_eraseIdx (Task.syncs r) ht
  rw [if_neg (by simp [h r])] at hcount
  exact hcount

/-- The sync at completion has returned, and the torrent is still in the session. -/
lemma writerSynced_rings {n r : Nat} (hp : s.Placed) (ht : s.tasks[n]? = some (.writer r .syncing))
    (hr : s.torrents.lookup (s.sess r).torrent.infoHash = some r) :
    Rings s ((s.without n).writerSynced e r saved) := by
  let id := (s.sess r).torrent.infoHash
  have hsaid : ∀ i, ((s.without n).emit (.completed id)).said i =
      s.said i + if i = id then 1 else 0 := count_completed s.sig.events
  have hsync : ∀ r', ((s.without n).emit (.completed id)).syncing r' +
      (if r = r' then 1 else 0) = s.syncing r' := by
    intro r'
    have hcount := Pool.countP_eraseIdx (Task.syncs r') ht
    simpa [Task.syncs, syncing, emit, without] using hcount
  have h₁ : Rings s ((s.without n).emit (.completed id)) := by
    refine ⟨rfl, rfl, fun _ => rfl, fun _ => rfl, fun _ => .inl rfl, fun i => ?_, fun i r' hi => ?_,
      fun i hi => ?_⟩
    · rw [hsaid]
      exact Nat.le_add_right ..
    · have hrose : s.rose ((s.without n).emit (.completed id)) r' = 0 :=
        if_neg fun hh => hh.2 hh.1
      have hsync' := hsync r'
      have hiff : r = r' ↔ i = id := eq_comm.trans (hp.eq_iff hr hi)
      rw [if_congr hiff rfl rfl] at hsync'
      rw [hsaid, hrose, ← hsync']
      omega
    · rw [hsaid, if_neg]
      · rfl
      · rintro rfl
        cases hi.symm.trans hr
  exact h₁.trans ((setTorrentStateIf_mute.trans evaluateQueue_mute).trans
    maybeMoveOnComplete_mute).rings

end Session

/-! ## The guard -/

def AddCall.startTable (c : AddCall) : Option TorrentDownloadedState :=
  if c.opts.seed then some (newTable c).markAllDownloaded
  else
    match c.loaded with
    | some data =>
      if c.fastPath then some ((newTable c).applyBitfield data.bitfield) else none
    | none => some (newTable c)

def Task.Announces (s : Session) (io : Io) : Task → Prop
  | .addOpen c => io.err = none → c.loaded.bind (·.completedAt) = none →
    ∀ table ∈ c.startTable, table.isComplete = false
  | .addVerify _ r | .recheck r _ => io.piece = none → s.firstComplete r = false
  | .writer r .syncing => s.torrents.lookup (s.sess r).torrent.infoHash = some r
  | _ => True

instance (s : Session) (io : Io) (t : Task) : Decidable (t.Announces s io) := by
  rcases t with _ | _ | _ | _ | _ | _ | _ | _ | _ | _ | ⟨r, pc⟩
  case writer => rcases pc <;> unfold Task.Announces <;> infer_instance
  all_goals unfold Task.Announces; infer_instance

namespace Session

def Announces (s : Session) : Env × Act → Prop
  | (_, .poll n io) => ∀ t ∈ s.tasks[n]?, t.Announces s io
  | _ => True

instance (s : Session) : ∀ a, Decidable (s.Announces a) := by
  rintro ⟨e, a⟩
  rcases a <;> unfold Announces <;> infer_instance

/-! ## Steps -/

/-- What a step says and sets. -/
inductive Chimes (s : Session) : Act → Session → Prop
  | rings {a : Act} {s' : Session} : Rings s s' → Chimes s a s'
  | removed {id : TorrentId} {deleteFiles : Bool} {s' : Session} :
    Mute (s.takeOut id deleteFiles) s' → Chimes s (.removeTorrent id deleteFiles) s'
  | opened {n : Nat} {io : Io} {c : AddCall} {s' : Session} : s.tasks[n]? = some (.addOpen c) →
    Mute ((s.without n).allocSession c) s' → Chimes s (.poll n io) s'
  | inserted {n : Nat} {io : Io} {c : AddCall} {r : Nat} {initial : TorrentState}
      {startPaused : Bool} {s' : Session} :
    s.tasks[n]? = some (.addListen c r initial startPaused) →
    Mute ((s.without n).place c r initial) s' → Chimes s (.poll n io) s'

variable {x : Ext} {s s₁ s' : Session} {e : Env} {r : Nat} {c : AddCall} {saved : Nat → Bool}

lemma Wf.placed (h : s.Wf x) : s.Placed := fun id r hr => (h.torrents id r hr).2

lemma Retouches.mute (h : Retouches s s') : Mute s s' := by
  cases h with
  | categories => exact setCategories_mute
  | flush => exact spawnFlushOne_mute
  | pend => exact setCategories_mute.trans modifyPend_mute
  | sess => exact (setCategories_mute.trans (modifySess_mute (by rfl))).trans spawnFlushOne_mute

lemma control_rings (hp : s.Placed) (o : Op) : Rings s (s.control e o) := by
  cases o with
  | pause id => exact (after_mute fun s' h => pause_mute h).rings
  | resume id =>
    refine (after_mute fun s' h => ?_).rings
    rcases byId_ok h with ⟨r, -, rfl⟩ | ⟨p, -, -, rfl⟩
    · exact (setTorrentState_mute.trans (setGlobal_mute.trans (evaluateQueue_mute.trans
        dhtSend_mute))).trans spawnFlushOne_mute
    · exact setPendingState_mute.trans (setGlobal_mute.trans (evaluateQueue_mute.trans
        dhtSend_mute))
  | setForceStart id enabled =>
    refine (after_mute fun s' h => ?_).rings
    rcases byId_ok h with ⟨r, -, rfl⟩ | ⟨p, -, -, rfl⟩
    · have h₁ : Mute s (s.modifySess r fun t => { t with forceStart := enabled }) :=
        modifySess_mute rfl
      exact ((h₁.trans setTorrentStateIf_mute).trans evaluateQueue_mute).trans spawnFlushOne_mute
    · exact (modifyPend_mute.trans setPendingStateIf_mute).trans evaluateQueue_mute
  | setFilePriority id i prio => exact after_rings fun s' h => reprioritizes_rings hp (setFilePriority_ok h)
  | setFilePriorities id prios =>
    exact after_rings fun s' h => reprioritizes_rings hp (setFilePriorities_ok h)
  | setSavePath id path moveFiles =>
    refine (after_mute fun s' h => ?_).rings
    rcases onTorrent_ok h with ⟨p, -, h⟩ | ⟨r, -, h⟩
    · cases h
      exact modifyPend_mute
    · have h₁ : Mute s (s.modifySess r fun t => { t with autoTmm := false }) :=
        modifySess_mute rfl
      dsimp only at h
      split at h <;> cases h
      · exact h₁.trans beginRelocate_mute
      · exact (h₁.trans (modifySess_mute (by rfl))).trans spawnFlushOne_mute
  | recheck id =>
    refine (after_mute fun s' h => ?_).rings
    rcases onTorrent_ok h with ⟨p, -, h⟩ | ⟨r, -, h⟩ <;> cases h
    exact (setTorrentState_mute.trans modifyTable_mute).trans (spawn_mute rfl)
  | setSequential | withTags | setShareLimits | setCategory | createCategory | editCategory =>
    exact (control_retouches rfl).mute.rings
  | removeCategory name =>
    refine (after_mute fun s' h => ?_).rings
    have hc : Ctrl { refs := fun _ => True } s s' := removeCategory_ctrl (fun _ _ _ => trivial) h
    unfold removeCategory at h
    split at h <;> cases h
    refine ⟨rfl, rfl, fun r => ?_, fun _ => rfl, fun r => hc.countP fun t ht => ?_⟩
    · dsimp only
      split <;> rfl
    · cases t <;> first | rfl | cases ht
  | setQueuePosition id pos =>
    refine (after_mute fun s' h => ?_).rings
    unfold setQueuePosition at h
    split at h <;> cases h
    exact (applyQueueOrder_mute.trans evaluateQueue_mute).trans spawnFlushResume_mute

lemma beginAdd_mute (m : Metainfo.TorrentMeta) (opts : AddTorrentOptions)
    (reuse call : Option Nat) (io : Io) : Mute s (s.beginAdd m opts reuse call io).1 := by
  unfold beginAdd
  split
  · exact .rfl
  · dsimp only
    split
    · exact setCategories_mute
    · exact setCategories_mute.trans (spawn_mute rfl)

lemma promotionFailed_mute {p : Nat} {msg : String} : Mute s (s.promotionFailed p msg) := by
  refine sig_mute fun i => ?_
  simp [Signals.emit, Signals.writeState, count_append]

lemma promote_mute {p : Nat} {bytes : Bytes} {io : Io} : Mute s (promote x s p bytes io) := by
  unfold promote
  split
  · exact promotionFailed_mute
  · rename_i m _
    have h := beginAdd_mute (s := s) m (promoterOptions (s.pend p)) (some p) none io
    split
    · rename_i heq
      rwa [heq] at h
    · rename_i heq
      rw [heq] at h
      exact h.trans promotionFailed_mute

lemma initTorrent_mute (c : AddCall) (r : Nat) : Mute s (s.initTorrent c r) := by
  refine ⟨rfl, rfl, fun r' => ?_, fun _ => rfl, fun _ => rfl⟩
  rcases eq_or_ne r' r with rfl | h
  · simp [initTorrent, modifySess, TorrentSession.marks]
  · simp [initTorrent, modifySess, h]

lemma finishTable_mute (h : s.firstComplete r = false) : Mute s (s.finishTable e c r) :=
  ((noteComplete_mute h).trans (initTorrent_mute c r)).trans (spawn_mute rfl)

lemma allocSession_completedAt (c : AddCall) :
    ((s.allocSession c).sess s.nextSess).completedAt = c.loaded.bind (·.completedAt) := by
  simp [allocSession]

lemma openStorage_mute
    (h : c.loaded.bind (·.completedAt) = none → ∀ table ∈ c.startTable, table.isComplete = false) :
    Mute (s.allocSession c) (s.openStorage e c) := by
  have hfirst : ∀ s₁ : Session, (s₁.sess s.nextSess).completedAt =
      c.loaded.bind (·.completedAt) → (s₁.sess s.nextSess).pipe.table ∈ c.startTable →
      s₁.firstComplete s.nextSess = false := by
    intro s₁ hat htable
    rw [firstComplete, isComplete, hat]
    cases hc : c.loaded.bind (·.completedAt) with
    | none => rw [h hc _ htable, Bool.false_and]
    | some n => rw [isNone_some, Bool.and_false]
  have hmod : ∀ f : TorrentDownloadedState → TorrentDownloadedState,
      some (f (newTable c)) = c.startTable →
      Mute (s.allocSession c) (((s.allocSession c).modifyTable s.nextSess f).finishTable e c
        s.nextSess) := by
    intro f hf
    refine modifyTable_mute.trans (finishTable_mute (hfirst _ ?_ ?_))
    · rw [modifyTable_mute.completedAt, allocSession_completedAt]
    · rw [← hf]
      simp [modifyTable, modifySess, allocSession]
  unfold openStorage
  split
  · rename_i hseed
    exact hmod (·.markAllDownloaded) (by simp [AddCall.startTable, hseed])
  · rename_i hseed
    split
    · rename_i data hdata
      dsimp only
      split_ifs with hfast
      · exact hmod (·.applyBitfield data.bitfield)
          (by simp [AddCall.startTable, hseed, hdata, hfast])
      · exact spawn_mute rfl
    · rename_i hdata
      refine finishTable_mute (hfirst _ (allocSession_completedAt c) ?_)
      simp [AddCall.startTable, hseed, hdata, allocSession]

lemma registerPending_mute (c : PendingCall) : Mute s (s.registerPending c) := by
  refine ⟨rfl, rfl, fun _ => rfl, fun id => ?_, fun r => ?_⟩
  · simp only [said, registerPending]
    split
    · simp [count_append]
    · rfl
  · exact (spawnIf_mute (s := s) rfl).syncing r

lemma recheckDone_mute {stayPaused : Bool}
    (h : s.firstComplete r = false) : Mute s (s.recheckDone e r stayPaused saved) := by
  unfold recheckDone
  extract_lets s₁ next s₂
  have h₂ : Mute s s₂ := (noteComplete_mute h).trans setTorrentState_mute
  split
  · exact h₂.trans maybeMoveOnComplete_mute
  · exact h₂.trans spawnFlushOne_mute

lemma relocateDone_mute {previous : TorrentState} {newOutput : Bytes}
    {after : AfterMove} {storage : Storage} {err : Option String} :
    Mute s (s.relocateDone r previous newOutput after storage err saved) := by
  unfold relocateDone
  extract_lets id
  split
  · have h₁ : Mute s (s.modifySess r fun t => { t with storage, outputDir := newOutput }) :=
      modifySess_mute rfl
    exact ((h₁.trans setTorrentState_mute).trans spawnFlushOne_mute).trans afterMove_mute
  · have h₁ : Mute s (s.modifySess r fun t => { t with storage }) := modifySess_mute rfl
    exact ((h₁.trans setTorrentState_mute).trans (emit_mute (by simp))).trans afterMove_mute

lemma insertTorrent_mute {initial : TorrentState} {startPaused : Bool} :
    Mute (s.place c r initial) (s.insertTorrent e c r initial startPaused saved) := by
  unfold insertTorrent
  extract_lets id s₁ s₂ s₃
  have h₂ : Mute s₁ s₂ := persist_mute.trans (spawnIf_mute rfl)
  have hwake : Mute s₂ (s₂.wakeGlobal initial.transferEnabled) :=
    { Mute.rfl with }
  have h₃ : Mute s₂ s₃ := hwake.trans ((emit_mute (by simp)).trans (emit_mute (by simp)))
  exact (h₂.trans h₃).trans (evaluateQueueIf_mute.trans (spawnIf_mute rfl))

lemma resumeTask_chimes (hwf : s.Wf x) {n : Nat} {io : Io} {t : Task}
    (ht : s.tasks[n]? = some t) (ha : t.Announces s io)
    (h : resumeTask x (s.without n) e io t = some s') : Chimes s (.poll n io) s' := by
  have hp := hwf.placed
  -- the tasks that do not sync
  have hmute (hq : (t.syncs ·) = fun _ => false) (hm : Mute (s.without n) s') :
      Chimes s (.poll n io) s' := .rings ((without_mute ht (congrFun hq)).trans hm).rings
  cases t with
  | addOpen c =>
    simp only [resumeTask] at h
    split at h <;> cases h
    · refine hmute rfl ?_
      unfold addFailed
      split
      · exact promotionFailed_mute
      · exact .rfl
    · rename_i herr
      exact .opened ht (openStorage_mute (ha herr))
  | addVerify c r =>
    simp only [resumeTask] at h
    split at h <;> cases h
    · exact hmute rfl (modifyTable_mute.trans (spawn_mute rfl))
    · rename_i hpiece
      exact hmute rfl (finishTable_mute (ha hpiece))
  | addListen c r initial startPaused =>
    cases h
    exact .inserted ht insertTorrent_mute
  | pendingOpen c =>
    simp only [resumeTask] at h
    split at h <;> cases h
    · exact hmute rfl .rfl
    · exact hmute rfl (registerPending_mute c)
  | promoter p =>
    obtain ⟨bytes, -, rfl⟩ := map_eq_some_iff.1 h
    exact hmute rfl promote_mute
  | recheck r stayPaused =>
    simp only [resumeTask] at h
    split at h <;> cases h
    · exact hmute rfl (modifyTable_mute.trans (spawn_mute rfl))
    · rename_i hpiece
      exact hmute rfl (recheckDone_mute (ha hpiece))
  | relocate r previous newOutput after =>
    obtain ⟨⟨storage, err⟩, -, rfl⟩ := map_eq_some_iff.1 h
    exact hmute rfl relocateDone_mute
  | moveOnComplete r =>
    cases h
    exact hmute rfl maybeMoveOnComplete_mute
  | flush rs =>
    cases h
    exact hmute rfl (.foldl _ fun _ _ _ => persist_mute)
  | resumeTimer r =>
    simp only [resumeTask] at h
    split at h
    · split at h <;> cases h
      exact hmute rfl .rfl
    · cases h
      exact hmute rfl (persist_mute.trans (spawn_mute rfl))
  | writer r pc =>
    cases pc with
    | recv =>
      obtain ⟨pipe, -, rfl⟩ := map_eq_some_iff.1 h
      exact hmute rfl ((modifySess_mute (by rfl)).trans (spawn_mute rfl))
    | writing =>
      obtain ⟨pipe, -, rfl⟩ := map_eq_some_iff.1 h
      have hrun := ((hwf.tasks _ (mem_of_getElem? ht)).sessions r
        (by simp)).2
      exact .rings ((without_mute ht fun _ => rfl).rings.trans (writerWrote_rings hrun))
    | syncing =>
      cases h
      exact .rings (writerSynced_rings hp ht ha)
    | sending =>
      cases h
      exact hmute rfl (spawn_mute rfl)

lemma pipeStep_mute {a : PipelineAct} (h : s.pipeStep x r a = some s') : Mute s s' := by
  unfold pipeStep at h
  split_ifs at h
  obtain ⟨pipe, -, rfl⟩ := map_eq_some_iff.1 h
  exact modifySess_mute rfl

lemma step_chimes {a : Act} (hwf : s.Wf x) (ha : s.Announces (e, a))
    (h : s.step x (e, a) = some s') : Chimes s a s' := by
  cases a with
  | op o =>
    cases h
    exact .rings (control_rings hwf.placed o)
  | pauseAll =>
    cases h
    exact .rings ((setGlobal_mute.trans setAll_mute).trans
      (dhtSend_mute.trans spawnFlushResume_mute)).rings
  | resumeAll =>
    cases h
    exact .rings (((setGlobal_mute.trans setAll_mute).trans evaluateQueue_mute).trans
      (dhtSend_mute.trans spawnFlushResume_mute)).rings
  | removeTorrent id deleteFiles =>
    cases h
    unfold removeTorrent
    split
    · exact .removed ((dhtSend_mute.trans (emit_mute (by simp))).trans evaluateQueue_mute)
    · exact .rings Mute.rfl.rings
  | tick =>
    cases h
    exact .rings (tick_rings hwf.placed)
  | restore on =>
    cases h
    have h₁ : Mute s { s with restoring := on } :=
      { Mute.rfl with }
    exact .rings (h₁.trans evaluateQueue_mute).rings
  | addMeta call m opts io =>
    cases h
    refine .rings (Mute.rings ?_)
    unfold addMeta
    split
    · exact { Mute.rfl with }
    · exact beginAdd_mute m opts none (some call) io
  | addMagnet call m opts =>
    cases h
    refine .rings (Mute.rings ?_)
    unfold addMagnet
    split
    · exact { Mute.rfl with }
    · exact setCategories_mute.trans (spawn_mute rfl)
  | addInfoHash call hash outputDir tmp =>
    cases h
    refine .rings (Mute.rings ?_)
    unfold addInfoHash
    split
    · exact { Mute.rfl with }
    · exact spawn_mute rfl
  | metadata p bytes =>
    simp only [step] at h
    split at h <;> cases h
    exact .rings modifyPend_mute.rings
  | piece r peer index start data | verified r n joined => exact .rings (pipeStep_mute h).rings
  | poll n io =>
    obtain ⟨t, ht, h⟩ := bind_eq_some_iff.1 h
    exact resumeTask_chimes hwf ht (ha t ht) h

end Session

/-! ## Whole runs -/

/-- A session, and what an observer has counted. -/
structure Watch where
  session : Session
  /-- How often `completed_at` of a session object has gone from `None` to `Some`. -/
  rises : Nat → Nat := fun _ => 0
  /-- How often `Completed` was sent for an id since the torrent of that id last changed. -/
  told : TorrentId → Nat := fun _ => 0

/-- The `completed_at` that a session object had before the step, or is made with. -/
def Session.completedBefore (s : Session) (a : Act) (r : Nat) : Option Nat :=
  if r < s.nextSess then (s.sess r).completedAt
  else
    match a.polled s with
    | some (.addOpen c) => c.loaded.bind (·.completedAt)
    | _ => none

namespace Watch

def see (w : Watch) (a : Act) (s' : Session) : Watch where
  session := s'
  rises r := w.rises r +
    if r < s'.nextSess ∧ w.session.completedBefore a r = none ∧ (s'.sess r).completedAt ≠ none
    then 1 else 0
  told id :=
    (if s'.torrents.lookup id = w.session.torrents.lookup id then w.told id else 0) +
      (s'.said id - w.session.said id)

def step (x : Ext) (w : Watch) (a : Env × Act) : Option Watch :=
  (w.session.step x a).map (w.see a.2)

def Announces (w : Watch) (a : Env × Act) : Prop := w.session.Announces a

instance (w : Watch) (a : Env × Act) : Decidable (w.Announces a) :=
  inferInstanceAs (Decidable (w.session.Announces a))

/-- What was said of the torrent of an id, or is about to be said, is what was set. -/
def Agrees (w : Watch) (id : TorrentId) : Prop :=
  match w.session.torrents.lookup id with
  | some r => w.told id + w.session.syncing r = w.rises r ∧ w.rises r ≤ 1
  | none => w.told id = 0

structure Inv (x : Ext) (w : Watch) : Prop where
  wf : w.session.Wf x
  once : ∀ r, w.rises r ≤ 1
  unset : ∀ r < w.session.nextSess, (w.session.sess r).completedAt = none → w.rises r = 0
  fresh : ∀ r, w.session.nextSess ≤ r → w.rises r = 0
  unused : ∀ r < w.session.nextSess, (w.session.sess r).running = false → w.rises r = 0
  agrees : ∀ id, w.Agrees id

variable {x : Ext} {w : Watch} {a : Act} {s' : Session}

lemma agrees_some {id : TorrentId} {r : Nat} (h : w.session.torrents.lookup id = some r) :
    w.Agrees id ↔ w.told id + w.session.syncing r = w.rises r ∧ w.rises r ≤ 1 := by
  unfold Agrees
  rw [h]

lemma agrees_none {id : TorrentId} (h : w.session.torrents.lookup id = none) :
    w.Agrees id ↔ w.told id = 0 := by
  unfold Agrees
  rw [h]

lemma see_rises_lt {r : Nat} (hn : w.session.nextSess ≤ s'.nextSess) (hr : r < w.session.nextSess) :
    (w.see a s').rises r = w.rises r + w.session.rose s' r := by
  simp only [see, completedBefore, if_pos hr, rose, hr.trans_le hn, true_and]

/-- What is not set is not counted. -/
lemma see_rises_eq {r : Nat} (h : r < s'.nextSess →
    (s'.sess r).completedAt = w.session.completedBefore a r) :
    (w.see a s').rises r = w.rises r := by
  simp only [see]
  rw [if_neg, Nat.add_zero]
  rintro ⟨hlt, hnone, hsome⟩
  exact hsome ((h hlt).trans hnone)

section

variable (h : w.Inv x)
include h

lemma Inv.rings (hr : Rings w.session s') (hwf : s'.Wf x) : (w.see a s').Inv x := by
  have hlt : ∀ r < w.session.nextSess, (w.see a s').rises r = w.rises r + w.session.rose s' r :=
    fun r hlt => see_rises_lt hr.nextSess.ge hlt
  have hge : ∀ r, w.session.nextSess ≤ r → (w.see a s').rises r = 0 := fun r hge => by
    rw [see_rises_eq fun hlt => absurd (hr.nextSess ▸ hlt) hge.not_gt]
    exact h.fresh r hge
  -- What is set was not set before, so it had not been counted.
  have hrose : ∀ r < w.session.nextSess, w.session.rose s' r = 0 ∨
      w.session.rose s' r = 1 ∧ w.rises r = 0 ∧ (s'.sess r).completedAt ≠ none ∧
        (w.session.sess r).running := by
    intro r hlt
    unfold rose
    split_ifs with hc
    · rcases hr.noted r with heq | ⟨-, hrun⟩
      · exact absurd (heq.trans hc.1) hc.2
      · exact .inr ⟨rfl, h.unset r hlt hc.1, hc.2, hrun⟩
    · exact .inl rfl
  have honce : ∀ r, (w.see a s').rises r ≤ 1 := by
    intro r
    rcases lt_or_ge r w.session.nextSess with hr' | hr'
    · rw [hlt r hr']
      have := h.once r
      rcases hrose r hr' with h₀ | ⟨h₁, h₂, -⟩ <;> omega
    · rw [hge r hr']
      exact Nat.zero_le _
  refine ⟨hwf, honce, fun r hr' hc => ?_, fun r hr' => hge r (hr.nextSess ▸ hr'),
    fun r hr' hrun => ?_, fun id => ?_⟩
  · have hr'' : r < w.session.nextSess := hr.nextSess ▸ hr'
    rw [hlt r hr'']
    rcases hrose r hr'' with h₀ | ⟨-, -, hset, -⟩
    · rw [h₀, Nat.add_zero]
      refine h.unset r hr'' ?_
      rcases hr.noted r with heq | ⟨hnone, -⟩
      · exact heq.symm.trans hc
      · exact hnone
    · exact absurd hc hset
  · have hr'' : r < w.session.nextSess := hr.nextSess ▸ hr'
    have hrun' : (w.session.sess r).running = false := (hr.running r).symm.trans hrun
    rw [hlt r hr'']
    rcases hrose r hr'' with h₀ | ⟨-, -, -, htrue⟩
    · rw [h₀, h.unused r hr'' hrun']
    · rw [hrun'] at htrue
      cases htrue
  · have htold : (w.see a s').told id = w.told id + (s'.said id - w.session.said id) := by
      simp only [see, hr.torrents, if_true]
    have hid := h.agrees id
    cases hl : w.session.torrents.lookup id with
    | none =>
      have hl' : (w.see a s').session.torrents.lookup id = none := hr.torrents ▸ hl
      rw [agrees_none hl'] at *
      rw [agrees_none hl] at hid
      rw [htold, hid, hr.other id hl, Nat.sub_self]
    | some r =>
      have hl' : (w.see a s').session.torrents.lookup id = some r := hr.torrents ▸ hl
      rw [agrees_some hl'] at *
      rw [agrees_some hl] at hid
      refine ⟨?_, honce r⟩
      have htells := hr.tells id r hl
      have hsaid := hr.said id
      rw [htold, hlt r (h.wf.torrents id r hl).1]
      change _ + s'.syncing r = _
      omega

lemma Inv.still (hwf : s'.Wf x) (hrises : ∀ r, (w.see a s').rises r = w.rises r)
    (hsaid : ∀ id, s'.said id = w.session.said id) (hsync : ∀ r, s'.syncing r = w.session.syncing r)
    (hnext : w.session.nextSess ≤ s'.nextSess)
    (hunset : ∀ r < s'.nextSess, (s'.sess r).completedAt = none → w.rises r = 0)
    (hunused : ∀ r < s'.nextSess, (s'.sess r).running = false → w.rises r = 0)
    (htor : ∀ id, s'.torrents.lookup id = w.session.torrents.lookup id ∨
      s'.torrents.lookup id ≠ w.session.torrents.lookup id ∧
        ∀ r ∈ s'.torrents.lookup id, w.rises r = 0 ∧ w.session.syncing r = 0) :
    (w.see a s').Inv x := by
  refine ⟨hwf, fun r => (hrises r).trans_le (h.once r), fun r hr hc => ?_, fun r hr => ?_,
    fun r hr hf => ?_, fun id => ?_⟩
  · rw [hrises]
    exact hunset r hr hc
  · rw [hrises]
    exact h.fresh r (hnext.trans hr)
  · rw [hrises]
    exact hunused r hr hf
  have htold : (w.see a s').told id =
      if s'.torrents.lookup id = w.session.torrents.lookup id then w.told id else 0 := by
    simp only [see, hsaid, Nat.sub_self, Nat.add_zero]
  have hsync' : ∀ r, (w.see a s').session.syncing r = w.session.syncing r := hsync
  rcases htor id with heq | ⟨hne, hnew⟩
  · rw [if_pos heq] at htold
    have hid := h.agrees id
    unfold Agrees at hid ⊢
    rw [show (w.see a s').session.torrents.lookup id = _ from heq]
    split <;> rename_i hl <;> rw [hl] at hid
    · rwa [htold, hrises, hsync']
    · rwa [htold]
  · rw [if_neg hne] at htold
    cases hl : s'.torrents.lookup id with
    | none => rwa [agrees_none hl]
    | some r =>
      obtain ⟨h₁, h₂⟩ := hnew r hl
      rw [agrees_some hl, htold, hrises, hsync', h₁, h₂]
      exact ⟨rfl, Nat.zero_le _⟩

lemma Inv.removed {id : TorrentId} {deleteFiles : Bool}
    (hm : Mute (w.session.takeOut id deleteFiles) s') (hwf : s'.Wf x) : (w.see a s').Inv x := by
  have hcomp : ∀ r, (s'.sess r).completedAt = (w.session.sess r).completedAt := by
    intro r
    rw [hm.completedAt]
    simp only [takeOut]
    split <;> rfl
  have hrun : ∀ r, (s'.sess r).running = (w.session.sess r).running := fun r =>
    (hm.running r).trans (takeOut_running ..)
  have hnext : s'.nextSess = w.session.nextSess := hm.nextSess
  refine h.still hwf (fun r => see_rises_eq fun hlt => ?_) hm.said hm.syncing hnext.ge
    (fun r hr hc => h.unset r (hnext ▸ hr) ((hcomp r).symm.trans hc))
    (fun r hr hf => h.unused r (hnext ▸ hr) ((hrun r).symm.trans hf)) fun i => ?_
  · rw [completedBefore, if_pos (hnext ▸ hlt), hcomp]
  · rw [hm.torrents]
    rcases eq_or_ne i id with rfl | hne
    · have hnone : (w.session.takeOut i deleteFiles).torrents.lookup i = none :=
        AList.lookup_erase ..
      rw [hnone]
      cases w.session.torrents.lookup i with
      | none => exact .inl rfl
      | some r => exact .inr (by simp)
    · exact .inl (AList.lookup_erase_ne hne)

/-- A session object is made. -/
lemma Inv.opened {n : Nat} {io : Io} {c : AddCall} (ht : w.session.tasks[n]? = some (.addOpen c))
    (hm : Mute ((w.session.without n).allocSession c) s') (hwf : s'.Wf x) :
    (w.see (.poll n io) s').Inv x := by
  have hnext : s'.nextSess = w.session.nextSess + 1 := hm.nextSess
  have hsess : ∀ r ≠ w.session.nextSess,
      ((w.session.without n).allocSession c).sess r = w.session.sess r :=
    fun r hr => allocSession_sess (s := w.session.without n) c hr
  have hwithout := without_mute ht fun _ => rfl
  refine h.still hwf (fun r => see_rises_eq fun hlt => ?_) hm.said
    (fun r => (hm.syncing r).trans (hwithout.syncing r)) (by omega) (fun r hr hc => ?_)
    (fun r hr hf => ?_) fun i => .inl (congrArg (AList.lookup i) hm.torrents)
  · rw [hm.completedAt, completedBefore]
    rcases eq_or_ne r w.session.nextSess with rfl | hne
    · rw [if_neg (lt_irrefl _)]
      simp only [Act.polled, ht]
      exact allocSession_completedAt (s := w.session.without n) c
    · rw [hsess r hne, if_pos (by omega)]
  · rcases eq_or_ne r w.session.nextSess with rfl | hne
    · exact h.fresh _ le_rfl
    · exact h.unset r (by omega) (by rw [← hsess r hne, ← hm.completedAt]; exact hc)
  · rcases eq_or_ne r w.session.nextSess with rfl | hne
    · exact h.fresh _ le_rfl
    · exact h.unused r (by omega) (by rw [← hsess r hne, ← hm.running]; exact hf)

lemma Inv.inserted {n : Nat} {io : Io} {c : AddCall} {r : Nat} {initial : TorrentState}
    {startPaused : Bool} (ht : w.session.tasks[n]? = some (.addListen c r initial startPaused))
    (hm : Mute ((w.session.without n).place c r initial) s') (hwf : s'.Wf x) :
    (w.see (.poll n io) s').Inv x := by
  have hcon := h.wf.constructed ht rfl rfl
  have hnext : s'.nextSess = w.session.nextSess := hm.nextSess
  have hcomp : ∀ r', (s'.sess r').completedAt = (w.session.sess r').completedAt := by
    intro r'
    rw [hm.completedAt]
    dsimp only [place, spawn]
    exact modifySess_sess TorrentSession.completedAt (by intro; rfl) _ r r'
  have hrun : ∀ r', (s'.sess r').running = false → (w.session.sess r').running = false := by
    intro r' hf
    rw [hm.running, (place_sess ..).2.2.2, Bool.or_eq_false_iff] at hf
    exact hf.2
  -- Only tasks of torrents in use sync.
  have hzero : w.session.syncing r = 0 := by
    refine countP_eq_zero.2 fun t htm hsync => ?_
    have hmem : r ∈ t.sessions := by
      unfold Task.syncs at hsync
      split at hsync
      · rw [← of_decide_eq_true hsync]
        simp
      · cases hsync
    have htrue := ((h.wf.tasks t htm).sessions r hmem).2
    rw [show (w.session.sess r).running = false from hcon.running] at htrue
    cases htrue
  have hsync : ∀ r', s'.syncing r' = w.session.syncing r' := by
    intro r'
    refine (hm.syncing r').trans (.trans ?_ ((without_mute ht fun _ => rfl).syncing r'))
    simp [syncing, place, spawn, modifySess, Task.syncs]
  refine h.still hwf (fun r' => see_rises_eq fun hlt => ?_) hm.said hsync hnext.ge
    (fun r' hr hc => h.unset r' (hnext ▸ hr) ((hcomp r').symm.trans hc))
    (fun r' hr hf => h.unused r' (hnext ▸ hr) (hrun r' hf)) fun i => ?_
  · rw [completedBefore, if_pos (hnext ▸ hlt), hcomp]
  · rw [hm.torrents]
    rcases eq_or_ne i c.torrent.infoHash with rfl | hne
    · have hsome : ((w.session.without n).place c r initial).torrents.lookup c.torrent.infoHash =
        some r := AList.lookup_insert ..
      rw [hsome]
      refine .inr ⟨fun heq => ?_, fun r' hr' => ?_⟩
      · have htrue := (h.wf.torrents _ r heq.symm).2.2
        rw [show (w.session.sess r).running = false from hcon.running] at htrue
        cases htrue
      · cases hr'
        exact ⟨h.unused r hcon.lt hcon.running, hzero⟩
    · exact .inl (AList.lookup_insert_ne hne)

lemma Inv.step {a : Env × Act} {w' : Watch} (ha : w.Announces a) (hs : w.step x a = some w') :
    w'.Inv x := by
  obtain ⟨s', hs', rfl⟩ := map_eq_some_iff.1 hs
  have hwf := h.wf.stepCase (step_cases hs')
  obtain ⟨e, a⟩ := a
  cases step_chimes h.wf ha hs' with
  | rings hr => exact h.rings hr hwf
  | removed hm => exact h.removed hm hwf
  | opened ht hm => exact h.opened ht hm hwf
  | inserted ht hm => exact h.inserted ht hm hwf

end

/-- A session that has just been made, before anything is counted. -/
def new (options : SessionOptions) (categories : Categories)
    (resumeFiles : ResumeFiles) : Watch :=
  { session := Session.new options categories resumeFiles }

lemma new_inv (options categories resumeFiles) : (new options categories resumeFiles).Inv x :=
  ⟨new_wf options categories resumeFiles, fun _ => Nat.zero_le _, fun _ _ _ => rfl,
    fun _ _ => rfl, fun _ _ _ => rfl, fun id => (agrees_none (AList.lookup_empty id)).2 rfl⟩

/-- `Completed` is sent once for each time `completed_at` is set, at most once for each torrent, and
never for an id that is not in the session. -/
theorem completed_once {options : SessionOptions} {categories : Categories}
    {resumeFiles : ResumeFiles} {as : List (Env × Act)}
    (h : Run (step x) Announces (new options categories resumeFiles) as w) :
    (∀ id, w.Agrees id) ∧ ∀ r, w.rises r ≤ 1 := by
  have hinv : w.Inv x := h.inv (fun hi ha hs => hi.step ha hs) (new_inv ..)
  exact ⟨hinv.agrees, hinv.once⟩

def passes : Ext :=
  { noExt with sha1 := fun _ => 0x6161616161616161616161616161616161616161 }

def download : List (Env × Act) :=
  addOneByte 7 "/d" ++
    ([({}, .piece 0 ⟨.v4 1, 1⟩ 0 0 [97]), ({}, .verified 0 0 true), ({}, .poll 0 {}),
      ({}, .poll 0 {})] : List (Env × Act))

def synced : List (Env × Act) := download ++ ([({}, .poll 0 {})] : List (Env × Act))

/-- `completed_at` is set and the sync has not returned; then it has. -/
theorem completed_once_download : ∃ w w', Run (step passes) Announces (new {} ∅ ∅) download w ∧
      (w.told 7, w.session.syncing 0, w.rises 0) = (0, 1, 1) ∧
      Run (step passes) Announces (new {} ∅ ∅) synced w' ∧
      (w'.told 7, w'.session.syncing 0, w'.rises 0) = (1, 0, 1) ∧
      (∀ id, w.Agrees id ∧ w'.Agrees id) ∧ ∀ r, w'.rises r ≤ 1 :=
  have hw := Run.of_isSome
  have hw' := Run.of_isSome
  ⟨_, _, hw, by decide +kernel, hw', by decide +kernel,
    fun id => ⟨(completed_once hw).1 id, (completed_once hw').1 id⟩, (completed_once hw').2⟩

/-- A recheck finds the byte on disk, and a torrent is added to seed: `completed_at` is set in both
and nothing says so, then or later. -/
theorem completed_silently :
    (exec (step noExt) anyStep (new {} ∅ ∅) (addOneByte 7 "/d" ++
        ([({}, .op (.recheck 7)), ({}, .poll 1 { piece := some 0 }), ({}, .poll 1 {}),
          ({}, .tick)] : List (Env × Act)))).map
      (fun w => (w.session.torrents.lookup 7, w.rises 0, w.session.syncing 0, w.told 7)) =
        some (some 0, 1, 0, 0) ∧
    (exec (step noExt) anyStep (new {} ∅ ∅)
        ([({}, .addMeta 0 (oneByteFile 7) { seed := true } {}), ({}, .poll 0 {}),
          ({}, .poll 0 {}), ({}, .tick)] : List (Env × Act))).map
      (fun w => (w.session.torrents.lookup 7, w.rises 0, w.session.syncing 0, w.told 7)) =
        some (some 0, 1, 0, 0) := by
  constructor <;> decide +kernel

end Watch

end BitRev
