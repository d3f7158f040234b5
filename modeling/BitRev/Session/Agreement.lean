import BitRev.Session.Changes

/-!
# Download state and state

`downloadState_agrees`: wherever the locks of the state cells let calls interleave, the download
state of a torrent follows from its state once no call on it is in progress, if the calls store it
in order and no active promotion fails. What a session does to its cells is of this kind
(`step_cells`), and as its calls do not overlap, only an error can disagree (`states_agree`).
-/

namespace BitRev

namespace Session

variable {x : Ext} {s s' : Session} {e : Env} {a : Act}

/-- The steps of a session change the state cells by whole calls. -/
lemma step_cells (h : s.step x (e, a) = some s') : CellRun s.sig.ctl s'.sig.ctl :=
  (step_cases h).cells

lemma run_cells {ok : Session → Env × Act → Prop} {as : List (Env × Act)}
    (h : Run (step x) ok s as s') : CellRun s.sig.ctl s'.sig.ctl :=
  h.inv (I := fun s' => CellRun s.sig.ctl s'.sig.ctl) (fun hr _ hs => hr.trans (step_cells hs)) .rfl

theorem states_agree (options : SessionOptions) (categories : Categories)
    (resumeFiles : ResumeFiles) (as : List (Env × Act))
    (h : Run (step x) anyStep (.new options categories resumeFiles) as s) (c : Nat) :
    (∃ message, (s.sig.ctl c).torrentState = .error message) ∨
      ((s.sig.ctl c).downloadState = .downloading ↔
        (s.sig.ctl c).torrentState.transferEnabled) := by
  obtain ⟨as', hcells⟩ := run_cells h
  have hdue : Cells.DueBut (fun st => ∃ message, st = .error message) ⟨s.sig.ctl, []⟩ := by
    refine hcells.inv (fun hm ha hs => hm.step (by simp) ?_ (by simp) hs) fun c => .inr ?_
    · rw [Cells.due_idle (by simp)]
      exact ⟨nofun, nofun⟩
    · rintro n rfl
      obtain hnil | hn := ha
      · simp [Cells.InOrder, hnil]
      · simp [Cells.InOrder, CellAct.sync.inj hn]
  rw [← Cells.due_idle (m := ⟨s.sig.ctl, []⟩) (by simp)]
  exact hdue c

theorem states_agree_metadata : ∃ s, Run (step noExt) anyStep (.new {} ∅ ∅)
      [({}, .addMagnet 0 ⟨0, none, [], [], []⟩ {}), ({}, .poll 0 {})] s ∧
    (s.sig.ctl 0).torrentState = .metadata ∧ (s.sig.ctl 0).downloadState = .downloading :=
  have hrun := Run.of_isSome
  ⟨_, hrun, rfl, ((states_agree {} ∅ ∅ _ hrun 0).resolve_left nofun).2 rfl⟩

theorem downloadState_agrees (options : SessionOptions) (categories : Categories)
    (resumeFiles : ResumeFiles) (as : List CellAct) (m : Cells)
    (hrun : Run Cells.step (fun m a => a.Ordered m)
      ⟨(Session.new options categories resumeFiles).sig.ctl, []⟩ as m)
    (c : Nat) (hidle : ∀ y ∈ m.syncing, y.1 ≠ c) :
    (m.ctl c).downloadState = .downloading ↔ (m.ctl c).torrentState.transferEnabled := by
  have hdue : m.Due := hrun.inv (fun h ha hs => h.step ha hs) fun c => by
    rw [Cells.due_idle (by simp)]
    exact ⟨nofun, nofun⟩
  rw [← Cells.due_idle hidle]
  exact hdue c

/-- A magnet is paused and resumed by calls that overlap but end in order. -/
theorem downloadState_agrees_overlap :
    ∃ m, Run Cells.step (fun m a => a.Ordered m) ⟨(Session.new {} ∅ ∅).sig.ctl, []⟩
        [.make 0 1 .metadata, .write 0 .paused, .write 0 .metadata, .sync 0, .sync 0] m ∧
      m.syncing = [] ∧ (m.ctl 0).torrentState = .metadata ∧
      ((m.ctl 0).downloadState = .downloading ↔
        (m.ctl 0).torrentState.transferEnabled) :=
  have hrun := Run.of_isSome
  ⟨_, hrun, by decide, by decide, downloadState_agrees {} ∅ ∅ _ _ hrun 0 (by decide)⟩

/-- The `info` dict of a magnet cannot be parsed: its state is an error and its download state
goes on downloading. And of two calls of different threads, the pause is the last to store its
download state but not its state. -/
theorem downloadState_disagrees :
    (∃ s, Run (step noExt) anyStep (Session.new {} ∅ ∅)
        [({}, .addMagnet 0 ⟨0, none, [], [], []⟩ {}),
          ({}, .poll 0 {}), ({}, .metadata 0 []), ({}, .poll 0 {})] s ∧
      s.tasks = [] ∧ s.pending.lookup 0 = some 0 ∧
      (s.state (s.pend 0).ctl).transferEnabled = false ∧
      (s.sig.ctl (s.pend 0).ctl).downloadState = .downloading) ∧
    ∃ m, Run Cells.step anyStep ⟨(Session.new {} ∅ ∅).sig.ctl, []⟩
        [.make 0 1 .metadata, .write 0 .paused, .write 0 .metadata, .sync 1, .sync 0] m ∧
      m.syncing = [] ∧ (m.ctl 0).torrentState.transferEnabled ∧
      (m.ctl 0).downloadState = .paused :=
  ⟨⟨_, .of_isSome, by decide, by decide, by decide, by decide⟩,
    _, .of_isSome, by decide, by decide, by decide⟩

end Session

end BitRev
