import BitRev.Session.Changes

/-!
# Checked and moved torrents

A recheck and a move set the state of their torrent to `Checking` or `Moving` and then wait; the
state is all that keeps the torrent from transferring meanwhile. `busy_idle`: nothing is
transferred while a torrent is checked or moved, if no step makes a busy torrent active or busy a
second time (`Exclusive`).
-/

namespace BitRev

open BitRev.Task List

/-- The task checks or moves the torrent with the cells `c`. -/
def Task.busyOn (s : Session) (c : Nat) (t : Task) : Bool := t.busy.any fun r => (s.sess r).ctl = c

/-- The torrent with the cells `c` is checked or moved. -/
def Session.busyCell (s : Session) (c : Nat) : Bool := s.tasks.any (busyOn s c)

/-- A task that goes on moves no torrent that is busy. -/
def Task.Exclusive (s : Session) : Task → Prop
  | .moveOnComplete r | .writer r .syncing =>
    s.busyCell (s.sess r).ctl = false ∨ s.moveTarget r = none
  | _ => True

/-- The step makes no busy torrent active, and neither checks nor moves it. -/
def Act.Exclusive (s : Session) : Act → Prop
  | .op (.resume id) | .op (.recheck id) => ∀ c ∈ s.cellOf id, s.busyCell c = false
  | .op (.setForceStart id enabled) => enabled → ∀ c ∈ s.cellOf id, s.busyCell c = false
  | .op (.setSavePath id _ moveFiles) => moveFiles → ∀ c ∈ s.cellOf id, s.busyCell c = false
  | .op (.setFilePriority id _ _) | .op (.setFilePriorities id _) =>
    ∀ c ∈ s.cellOf id, s.busyCell c = false ∨ s.state c = .paused ∨ s.state c = .checking
  | .resumeAll => (∀ y ∈ s.torrents.entries, s.busyCell (s.sess y.2).ctl = false) ∧
    ∀ y ∈ s.pending.entries, s.busyCell (s.pend y.2).ctl = false
  | .poll n _ => ∀ t ∈ s.tasks[n]?, t.Exclusive s
  | _ => True

instance (s : Session) (t : Task) : Decidable (t.Exclusive s) := by
  rcases t with _ | _ | _ | _ | _ | _ | _ | _ | _ | _ | ⟨r, pc⟩
  case writer => rcases pc <;> unfold Task.Exclusive <;> infer_instance
  all_goals unfold Task.Exclusive; infer_instance

instance (s : Session) (a : Act) : Decidable (a.Exclusive s) := by
  rcases a with ⟨o⟩ | _
  case op => rcases o <;> unfold Act.Exclusive <;> infer_instance
  all_goals unfold Act.Exclusive; infer_instance

section

variable {x : Ext} {s s' : Session} {e : Env} {a : Act} {c : Nat} {t : Task} {r : Nat}

lemma Task.busyOn_iff : t.busyOn s c ↔ ∃ r, t.busy = some r ∧ (s.sess r).ctl = c := by
  unfold busyOn
  cases t.busy <;> simp

lemma Task.busy_sessions (h : t.busy = some r) : r ∈ t.sessions := by
  cases t <;> cases h <;> exact mem_singleton.2 rfl

lemma Task.isLight_busy (h : t.isLight) : t.busy = none := by
  cases t <;> first | rfl | cases h

lemma Task.isLight_busyOn (h : t.isLight) : t.busyOn s c = false := by
  simp [busyOn, isLight_busy h]

lemma Task.Wf.busyOn (ht : t.Wf s) (hg : Grows s s') : t.busyOn s' c = t.busyOn s c := by
  unfold Task.busyOn
  cases hb : t.busy with
  | none => rfl
  | some r => simp only [Option.any_some, hg.ctl r (ht.sessions r (busy_sessions hb)).1]

lemma Session.busyCell_of_mem (ht : t ∈ s.tasks) (hr : t.busy = some r) :
    s.busyCell (s.sess r).ctl :=
  any_eq_true.2 ⟨t, ht, Task.busyOn_iff.2 ⟨r, hr, rfl⟩⟩

/-- A task that checks or moves a torrent was there before, goes on, or starts with it idle. -/
lemma StepCase.busy (hs : StepCase x s e a s') (ht : t ∈ s'.tasks) (hr : t.busy = some r) :
    t ∈ (s.before a).tasks ∨ a.Begins x s t ∧ a.polled s = some t ∨
      (s'.sig.ctl (s'.sess r).ctl).idle := by
  have hctrl : ∀ {al : Scope} {s₁ s₂ : Session}, Ctrl al s₁ s₂ → t ∈ s₂.tasks → t ∈ s₁.tasks := by
    intro al s₁ s₂ hc hmem
    obtain ⟨new, htasks, hnew⟩ := hc.tasks
    rcases mem_append.1 (htasks ▸ hmem) with hmem | hmem
    · exact hmem
    · cases hr.symm.trans (isLight_busy (hnew t hmem).1)
  have hspawn {l : List Task} {t' : Task} (hm : t ∈ l ++ [t']) (hn : t'.busy = none) : t ∈ l := by
    refine (mem_append.1 hm).resolve_right fun hmem => ?_
    cases hr.symm.trans (mem_singleton.1 hmem ▸ hn)
  cases hs with
  | ctrl hc _ => exact .inl (hctrl hc ht)
  | suspends hb hc hidle =>
    rcases mem_append.1 ht with ht | ht
    · exact .inl (hctrl hc ht)
    · rw [mem_singleton] at ht
      subst ht
      exact .inr ((hidle r hr).imp (fun hp => ⟨hb, hp⟩) id)
  | removed _ hc =>
    have hmem := hctrl hc ht
    exact .inl hmem
  | metadata _ _ _ => exact .inl ht
  | opened _ => exact .inl (hspawn ht rfl)
  | openedAll _ hc =>
    have hmem := hctrl hc (hspawn ht rfl)
    exact .inl hmem
  | finished _ hc => exact .inl (hctrl hc (hspawn ht rfl))
  | inserted _ hc => exact .inl (hspawn (hctrl hc ht) rfl)
  | @registered n io c htask =>
    refine .inl (mem_append.1 ht |>.resolve_right fun hmem => ?_)
    split at hmem
    · rw [mem_singleton] at hmem
      subst hmem
      cases hr
    · cases hmem

lemma StepCase.starts_busy (hs : StepCase x s e a s') (hwf : s.Wf x) (ha : a.Exclusive s)
    (hst : a.Starts x s t) (hbusy : t.busyOn s' c) :
    (a.polled s).any (busyOn s c) ∨ s.busyCell c = false := by
  cases hst with
  | begins hb =>
    rw [(hwf.begins hb).busyOn hs.grows] at hbusy
    obtain ⟨r, hr, rfl⟩ := Task.busyOn_iff.1 hbusy
    cases hb with
    | recheck hid =>
      cases hr
      exact .inr (ha _ (Session.cellOf_torrent hid))
    | setSavePath path hid =>
      cases hr
      exact .inr (ha rfl _ (Session.cellOf_torrent hid))
    | addMeta | addMagnet | addInfoHash => cases hr
    | @poll n io t₀ t' ht₀ hf =>
      have hexcl := ha t₀ ht₀
      cases hf with
      | recheck => exact .inl (StepCase.polled_any ht₀ hbusy)
      | recheckMove =>
        cases hr
        exact .inl (StepCase.polled_any ht₀ (Task.busyOn_iff.2 ⟨_, rfl, rfl⟩))
      | moveOnComplete htarget | writerMove htarget _ =>
        cases hr
        exact .inr (hexcl.resolve_right fun hnone => by cases htarget.symm.trans hnone)
      | _ => cases hr
  | verify | listen | writer | promoter => cases hbusy

end

namespace Session

variable {x : Ext} {s s' : Session} {e : Env} {a : Act}

/-- A torrent is checked or moved by one task at most, and idle meanwhile. -/
structure Exclusive (x : Ext) (s : Session) : Prop where
  wf : s.Wf x
  one : ∀ c, s.tasks.countP (busyOn s c) ≤ 1
  idle : ∀ t ∈ s.tasks, ∀ r, t.busy = some r → (s.sig.ctl (s.sess r).ctl).idle

lemma new_exclusive (options categories resumeFiles) :
    (Session.new options categories resumeFiles).Exclusive x :=
  ⟨new_wf .., fun _ => Nat.zero_le _, fun _ ht => absurd ht not_mem_nil⟩

lemma Exclusive.wakes (hx : s.Exclusive x) (ha : a.Exclusive s) {t : Task} {r : Nat}
    (ht : t ∈ (s.before a).tasks) (hr : t.busy = some r) : ¬(a.scope s).wakes (s.sess r).ctl := by
  have hbusy := busyCell_of_mem (StepCase.mem_before ht) hr
  have hnot : ∀ {b}, s.busyCell (s.sess r).ctl = b → b = false → False := by
    rintro b rfl hb
    exact absurd (hbusy.symm.trans hb) (by decide)
  intro hw
  cases a with
  | op o =>
    cases o with
    | resume id => exact hnot rfl (ha _ hw)
    | setForceStart id enabled =>
      cases enabled with
      | false => exact hw
      | true => exact hnot rfl (ha rfl _ hw)
    | setFilePriority id i prio | setFilePriorities id prios =>
      obtain ⟨r', hr', hctl, hp, hc⟩ := hw
      exact (ha _ (hctl ▸ cellOf_torrent hr')).elim (hnot rfl) (·.elim hp hc)
    | _ => exact hw
  | resumeAll =>
    rcases hw with ⟨id, r', hr', hctl⟩ | ⟨id, p, hp, hctl⟩
    · exact hnot (congrArg _ hctl.symm) (ha.1 ⟨id, r'⟩ (AList.mem_lookup_iff.1 hr'))
    · exact hnot (congrArg _ hctl.symm) (ha.2 ⟨id, p⟩ (AList.mem_lookup_iff.1 hp))
  | poll n io =>
    simp only [Act.scope] at hw
    split at hw
    · rename_i t₀ ht₀
      -- The task that goes on would check or move the same torrent.
      have hcount := StepCase.countP_before s (.poll n io) (busyOn s (s.sess r).ctl)
      have hone := hx.one (s.sess r).ctl
      have hpos : 0 < ((s.before (.poll n io)).tasks).countP (busyOn s (s.sess r).ctl) :=
        countP_pos_iff.2 ⟨t, ht, Task.busyOn_iff.2 ⟨r, hr, rfl⟩⟩
      have hself : busyOn s (s.sess r).ctl t₀ := by
        cases t₀ with
        | recheck r' stayPaused => exact Task.busyOn_iff.2 ⟨r', rfl, hw.2.2⟩
        | relocate r' previous newOutput after => exact Task.busyOn_iff.2 ⟨r', rfl, hw.2.1⟩
        | _ => exact hw.elim
      have hpolled : ((Act.poll n io).polled s).any (busyOn s (s.sess r).ctl) :=
        StepCase.polled_any ht₀ hself
      rw [if_pos hpolled] at hcount
      omega
    · exact hw
  | _ => exact hw

lemma Exclusive.stepCase (hx : s.Exclusive x) (ha : a.Exclusive s) (hs : StepCase x s e a s') :
    s'.Exclusive x := by
  have hwf' := hx.wf.stepCase hs
  refine ⟨hwf', fun c => ?_, fun t ht r hr => ?_⟩
  · have hcount := StepCase.countP_before s a (busyOn s c)
    have hold : (s.before a).tasks.countP (busyOn s' c) = (s.before a).tasks.countP (busyOn s c) :=
      countP_congr fun t ht => by rw [(hx.wf.tasks t (StepCase.mem_before ht)).busyOn hs.grows]
    have hone := hx.one c
    rcases hs.countP_tasks (q := busyOn s' c) fun t ht => isLight_busyOn ht with
      heq | ⟨t, -, hst, hbusy, heq⟩
    · omega
    · rcases hs.starts_busy hx.wf ha hst hbusy with hpoll | hfree
      · rw [if_pos hpoll] at hcount
        omega
      · have hzero : s.tasks.countP (busyOn s c) = 0 :=
          countP_eq_zero.2 (any_eq_false.1 hfree)
        omega
  · -- Where a task was there before, its torrent was idle and nothing wakes it.
    have hkept : t ∈ s.tasks → ¬(a.scope s).wakes (s.sess r).ctl →
        (s'.sig.ctl (s'.sess r).ctl).idle := by
      intro hmem hw
      obtain ⟨hlt, hrun⟩ := (hx.wf.tasks t hmem).sessions r (busy_sessions hr)
      rw [hs.grows.ctl r hlt]
      refine hs.idle (hx.wf.sess r hlt).1 (hx.idle t hmem r hr) hw fun c r' initial _ hmakes heq => ?_
      have hne := hwf'.making_ctl hmakes rfl rfl (hlt.trans_le hs.grows.nextSess)
        (hs.grows.running r hlt hrun)
      exact absurd (heq.trans (hs.grows.ctl r hlt).symm) hne
    rcases hs.busy ht hr with hmem | ⟨hb, hpoll⟩ | hidle
    · exact hkept (StepCase.mem_before hmem) (hx.wakes ha hmem hr)
    · cases hb with
      | @poll n io t₀ _ ht₀ hf =>
        cases ht₀.symm.trans hpoll
        refine hkept (mem_of_getElem? hpoll) ?_
        simp only [Act.scope, ht₀]
        cases hf with
        | recheck r stayPaused hpiece => exact fun hw => hpiece hw.1
        | addVerify | writer => cases hr
      | _ => cases hpoll
    · exact hidle

/-- While a torrent is checked or moved nothing is transferred, in every run in which no step
makes a busy torrent active or busy a second time. -/
theorem busy_idle (x : Ext) (options : SessionOptions) (categories : Categories)
    (resumeFiles : ResumeFiles) (as : List (Env × Act)) (s : Session)
    (hrun : Run (step x) (fun s a => a.2.Exclusive s)
      (Session.new options categories resumeFiles) as s)
    (t : Task) (ht : t ∈ s.tasks) (r : Nat) (hr : t.busy = some r) :
    (s.sig.ctl (s.sess r).ctl).downloadState ≠ .downloading := by
  have hx := hrun.inv (fun hx ha hs => hx.stepCase ha (step_cases hs)) (new_exclusive ..)
  exact (hx.idle t ht r hr).2

def pausedRecheck : List (Env × Act) :=
  addOneByte 1 "/x" ++ [(({} : Env), .op (.resume 1)), ({}, .op (.recheck 1)), ({}, .op (.pause 1)),
    ({}, .poll 1 { piece := some 0 })]

theorem busy_idle_recheck : let s := reached (fun s a => a.2.Exclusive s) pausedRecheck (by decide)
    Run (step noExt) (fun s a => a.2.Exclusive s) (Session.new {} ∅ ∅) pausedRecheck s ∧
      ∃ t ∈ s.tasks, t.busy = some 0 ∧
        (s.sig.ctl (s.sess 0).ctl).downloadState ≠ .downloading := by
  intro s
  have hrun : Run (step noExt) (fun s a => a.2.Exclusive s) (Session.new {} ∅ ∅) pausedRecheck s :=
    .of_isSome _
  obtain ⟨t, ht, hr⟩ : ∃ t ∈ s.tasks, t.busy = some 0 := by decide
  exact ⟨hrun, t, ht, hr, busy_idle noExt {} ∅ ∅ _ _ hrun t ht 0 hr⟩

/-- A torrent that is resumed while it is checked transfers, though its recheck goes on. -/
theorem busy_resumed : ∃ s, Run (step noExt) anyStep (Session.new {} ∅ ∅)
        (addOneByte 1 "/x" ++ [(({} : Env), .op (.recheck 1)), ({}, .op (.resume 1))]) s ∧
      (∃ t ∈ s.tasks, t.busy = some 0) ∧
      (s.sig.ctl (s.sess 0).ctl).downloadState = .downloading :=
  ⟨_, .of_isSome, by decide, by decide⟩

end Session

end BitRev
