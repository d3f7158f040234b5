import BitRev.Session.Changes

/-!
# Paused torrents

A torrent that is paused, checked, moved or in error is idle. `Dormant` says which steps leave the
torrents of a hash idle (`Dormant.wakes`), and `Resting` also asks that what is added for the hash
starts idle. `pause_lasts`: a paused torrent transfers nothing while all steps are of that kind.
-/

namespace BitRev

def Task.Dormant (h : Digest) (s : Session) : Task → Prop
  | .recheck r stayPaused => (s.sess r).torrent.infoHash = h → stayPaused
  | .relocate r previous _ _ => (s.sess r).torrent.infoHash = h → previous.keptByMove
  | .addListen c r _ _ => c.torrent.infoHash = h → (s.sig.ctl (s.sess r).ctl).idle
  | _ => True

/-- The step leaves the torrents with this hash idle. -/
def Act.Dormant (h : Digest) (s : Session) : Act → Prop
  | .op (.resume id) => id ≠ h
  | .op (.setForceStart id enabled) => id = h → enabled = false
  | .op (.setFilePriority id _ _) | .op (.setFilePriorities id _) => id = h →
    ∀ c ∈ s.cellOf h, s.state c = .paused ∨ s.state c = .checking
  | .resumeAll => s.cellOf h = none
  | .poll n _ => ∀ t ∈ s.tasks[n]?, t.Dormant h s
  | _ => True

instance (h : Digest) (s : Session) (t : Task) : Decidable (t.Dormant h s) := by
  rcases t <;> unfold Task.Dormant <;> infer_instance

instance (h : Digest) (s : Session) (a : Act) : Decidable (a.Dormant h s) := by
  rcases a with ⟨o⟩ | _
  case op => rcases o <;> unfold Act.Dormant <;> infer_instance
  all_goals unfold Act.Dormant; infer_instance

namespace Session

variable {x : Ext} {s s' : Session} {e : Env} {a : Act} {h : Digest}

lemma Dormant.wakes (hwf : s.Wf x) (ha : a.Dormant h s) {k : Nat} (hk : s.cellOf h = some k) :
    ¬(a.scope s).wakes k := by
  have hhash := hwf.cellOf_infoHash hk
  have hcell : ∀ {id}, s.cellOf id = some k → id = h := fun hid =>
    (hwf.cellOf_infoHash hid).symm.trans hhash
  have hprio : ∀ {id : TorrentId} {r : Nat}, s.torrents.lookup id = some r → (s.sess r).ctl = k →
      id = h := fun hr hctl => hcell (hctl ▸ cellOf_torrent hr)
  intro hw
  cases a with
  | op o =>
    cases o with
    | resume id => exact ha (hcell hw)
    | setForceStart id enabled =>
      cases enabled with
      | false => exact hw
      | true => cases ha (hcell hw)
    | setFilePriority id i prio | setFilePriorities id prios =>
      obtain ⟨r, hr, hctl, hp, hc⟩ := hw
      rcases ha (hprio hr hctl) k hk with h₁ | h₁
      · exact hp h₁
      · exact hc h₁
    | _ => exact hw
  | resumeAll => cases hk.symm.trans ha
  | poll n io =>
    simp only [Act.scope] at hw
    split at hw
    · rename_i t ht
      have hd := ha t ht
      have hsess := fun r hr => ((hwf.tasks t (List.mem_of_getElem? ht)).sessions r hr).1
      cases t with
      | recheck r stayPaused =>
        obtain ⟨-, hstay, hctl⟩ := hw
        have hr := hsess r (by simp)
        have hstay' := hd (by rw [← (hwf.sess r hr).2, hctl, hhash])
        exact absurd (hstay.symm.trans hstay') (by decide)
      | relocate r previous newOutput after =>
        obtain ⟨hkept, hctl, -⟩ := hw
        have hr := hsess r (by simp)
        have hkept' := hd (by rw [← (hwf.sess r hr).2, hctl, hhash])
        exact absurd (hkept.symm.trans hkept') (by decide)
      | _ => exact hw
    · exact hw
  | _ => exact hw

end Session
/-- A task that goes on leaves the torrents with this hash idle, and what it adds is idle. -/
def Task.Resting (h : Digest) (s : Session) (t : Task) : Prop :=
  t.Dormant h s ∧
    match t with
    | .addOpen c => ∀ p ∈ c.reuse, s.cellOf h = some (s.pend p).ctl → s.startsPaused c
    | .addVerify c r => s.cellOf h = some (s.sess r).ctl → s.startsPaused c
    | .pendingOpen c => c.infoHash = h → c.opts.paused = some true
    | _ => True

/-- The step leaves the torrents with this hash idle, and what it adds is idle. -/
def Act.Resting (h : Digest) (s : Session) (a : Act) : Prop :=
  a.Dormant h s ∧ ∀ t ∈ a.polled s, t.Resting h s

instance (h : Digest) (s : Session) (t : Task) : Decidable (t.Resting h s) := by
  rcases t <;> unfold Task.Resting <;> infer_instance

instance (h : Digest) (s : Session) (a : Act) : Decidable (a.Resting h s) := by
  unfold Act.Resting
  infer_instance

namespace Session

variable {x : Ext} {s s' : Session} {e : Env} {a : Act} {h : Digest}

structure Rests (x : Ext) (h : Digest) (s : Session) : Prop where
  wf : s.Wf x
  idle : ∀ k, s.cellOf h = some k → (s.sig.ctl k).idle

lemma Resting.inits (hr : s.Rests x h) (ha : a.Resting h s) (hs : StepCase x s e a s') {k : Nat}
    (hk : s.cellOf h = some k) {c : AddCall} {r : Nat} {initial : TorrentState}
    (hi : a.Inits s c r) (ht : .addListen c r initial (s.startsPaused c) ∈ s'.tasks)
    (hctl : (s'.sess r).ctl = k) : s.startsPaused c := by
  obtain ⟨hlt', -⟩ := ((hr.wf.stepCase hs).tasks _ ht).constructs r c rfl rfl
  rcases hi with ⟨ho, rfl⟩ | ⟨n, io, rfl, ht'⟩
  · obtain ⟨c', ho', -, -, hcell, -⟩ := hs.opens hlt'
    cases ho.unique ho'
    obtain ⟨n, io, rfl, ht'⟩ := ho
    rw [hctl] at hcell
    cases hreuse : c.reuse with
    | none =>
      -- A new cell is none that is looked up to.
      have hfresh : k = s.nextCtl := by rw [hcell, newCell, hreuse]; rfl
      exact absurd (hr.wf.cellOf_lt hk) (by omega)
    | some p =>
      have hold : k = (s.pend p).ctl := by rw [hcell, newCell, hreuse]; rfl
      exact (ha.2 _ ht').2 p hreuse (hold ▸ hk)
  · obtain ⟨hlt, -⟩ := (hr.wf.tasks _ (List.mem_of_getElem? ht')).constructs r c rfl rfl
    rw [hs.grows.ctl r hlt] at hctl
    exact (ha.2 _ ht').2 (hctl ▸ hk)

lemma Rests.stepCase (hr : s.Rests x h) (ha : a.Resting h s) (hs : StepCase x s e a s') :
    s'.Rests x h := by
  refine ⟨hr.wf.stepCase hs, fun k hk => ?_⟩
  rcases hs.cellOf hr.wf hk with hold | ⟨c, r, ⟨n, io, initial, startPaused, rfl, ht⟩, hhash, rfl⟩ |
    ⟨c, ⟨n, io, rfl, ht⟩, hhash, hnew⟩
  · exact hs.idle (hr.wf.cellOf_lt hold) (hr.idle k hold) (Dormant.wakes hr.wf ha.1 hold)
      fun c r initial hi ht hctl => Resting.inits hr ha hs hold hi ht hctl
  · obtain ⟨hlt, -⟩ := (hr.wf.tasks _ (List.mem_of_getElem? ht)).constructs r c rfl rfl
    refine hs.idle (hr.wf.sess r hlt).1 (ha.1 _ ht hhash) ?_ ?_
    · simp [Act.scope, ht, Task.scope, Task.wakes]
    · rintro c' r' initial' (⟨⟨n', io', heq, ht'⟩, -⟩ | ⟨n', io', heq, ht'⟩) - -
      · cases heq
        cases ht.symm.trans ht'
      · cases heq
        cases ht.symm.trans ht'
  · rw [hnew, pendingInitial, (ha.2 _ ht).2 hhash]
    exact ⟨rfl, show syncDownloadState .paused ≠ .downloading by decide⟩

lemma pause_idle {id : TorrentId} (hp : s.pause e id = .ok s') {k : Nat}
    (hk : s'.cellOf id = some k) : (s'.sig.ctl k).idle := by
  have hin : ∀ id r, s.torrents.lookup id = some r → (fun _ : Nat => True) r := fun _ _ _ => trivial
  have hctrl : Ctrl { refs := fun _ => True } s s' := pause_ctrl hin hp
  rw [hctrl.keeps.cellOf id] at hk
  rcases byId_ok hp with ⟨r, hr, rfl⟩ | ⟨p, hr, hp', rfl⟩
  · rw [cellOf_torrent hr] at hk
    cases hk
    have hrest : Ctrl { refs := fun _ => True } (s.setTorrentState r id .paused)
        ((((s.setTorrentState r id .paused).dhtSend (.setActive id false)).spawnFlushOne
          r).evaluateQueue e) :=
      ((dhtSend_ctrl (by trivial)).trans (spawnFlushOne_ctrl trivial)).trans evaluateQueue_ctrl
    exact hrest.idle _ (fun hf => hf) (setState_self_idle s.sig _ id rfl)
  · rw [cellOf_pending hr hp'] at hk
    cases hk
    have hrest : Ctrl .none (s.setPendingState p id .paused)
        (((s.setPendingState p id .paused).dhtSend (.setActive id false)).evaluateQueue e) :=
      (dhtSend_ctrl (by trivial)).trans evaluateQueue_ctrl
    exact hrest.idle _ (fun hf => hf) (setState_self_idle s.sig _ id rfl)

lemma idle_transferEnabled {k : Ctl} (hk : k.idle) : k.torrentState.transferEnabled = false := by
  have hb := hk.1
  cases hst : k.torrentState <;> simp_all [TorrentState.isBlocked, TorrentState.transferEnabled]

/-- After `pause`, a torrent transfers nothing in any state, as long as no step resumes it, ends a
check or move that began while it was active, or adds it anew without pausing it. -/
theorem pause_lasts (x : Ext) (options : SessionOptions) (categories : Categories)
    (resumeFiles : ResumeFiles) (as : List (Env × Act)) (s s₁ s' : Session)
    (hrun : Run (step x) anyStep (Session.new options categories resumeFiles) as s)
    (e : Env) (id : TorrentId) (hpause : s.pause e id = .ok s₁) (bs : List (Env × Act))
    (hlater : Run (step x) (fun s a => a.2.Resting id s) s₁ bs s') (k : Nat)
    (hk : s'.cellOf id = some k) : (s'.state k).transferEnabled = false := by
  have hwf : s.Wf x := run_wf hrun (new_wf ..)
  have hstep : s.step x (e, .op (.pause id)) = some s₁ := by simp [step, control, hpause, after]
  have hrests : s₁.Rests x id :=
    ⟨hwf.stepCase (step_cases hstep), fun _ hk => pause_idle hpause hk⟩
  have hend := hlater.inv (fun hr ha hs => hr.stepCase ha (step_cases hs)) hrests
  exact idle_transferEnabled (hend.idle k hk)

/-- A paused torrent that is checked stays paused. -/
theorem pause_lasts_recheck :
    let s := reached anyStep (addOneByte 1 "/x") (by decide)
    ∃ s₁ s', s.pause {} 1 = .ok s₁ ∧ Run (step noExt) (fun s a => a.2.Resting 1 s) s₁
      [({}, .op (.recheck 1)), ({}, .poll 1 {})] s' ∧ s'.cellOf 1 = some 0 ∧ s'.state 0 = .paused ∧
      (s'.state 0).transferEnabled = false :=
  have hpause := ok_after (reached anyStep (addOneByte 1 "/x") (by decide)) (by decide)
  have hlater := Run.of_isSome
  ⟨_, _, hpause, hlater, by decide, by decide,
    pause_lasts noExt {} ∅ ∅ _ _ _ _ (.of_isSome _) {} 1 hpause _ hlater 0 (by decide)⟩

def checkedRun : List (Env × Act) := addOneByte 1 "/x" ++ [(({} : Env), .op (.recheck 1))]

/-- A recheck that began before the pause makes the torrent active again when it ends. -/
theorem pause_undone :
    let s := reached anyStep checkedRun (by decide)
    Run (step noExt) anyStep (Session.new {} ∅ ∅) checkedRun s ∧ ∃ s₁ s', s.pause {} 1 = .ok s₁ ∧
      s₁.state 0 = .paused ∧ Run (step noExt) anyStep s₁ [({}, .poll 1 {})] s' ∧ s'.cellOf 1 = some
      0 ∧ (s'.state 0).transferEnabled :=
  ⟨.of_isSome _, _, _, ok_after (reached anyStep checkedRun (by decide)) (by decide), by decide,
    .of_isSome, by decide, by decide⟩

end Session

end BitRev
