import BitRev.Session.Wf

/-!
# What a step changes

What `StepCase` says about each part of a session: the suspended tasks, the torrents and magnets,
the session objects, where their files are, the slots of magnets, the state cells and what the DHT
actor is told. The invariants of the following modules use only these.
-/

namespace BitRev

open Session List Option AList

section

variable (s : Session)

/-- The action ends an `add_torrent_meta`: the session object `r` becomes a torrent. -/
def Act.Inserts (a : Act) (c : AddCall) (r : Nat) : Prop :=
  ∃ n io initial startPaused, a = .poll n io ∧
    s.tasks[n]? = some (.addListen c r initial startPaused)

/-- The storage of a torrent is open: the session object of `c` is made. -/
def Act.Opens (a : Act) (c : AddCall) : Prop :=
  ∃ n io, a = .poll n io ∧ s.tasks[n]? = some (.addOpen c)

lemma Act.Opens.unique {s : Session} {a : Act} {c c' : AddCall} (h : a.Opens s c)
    (h' : a.Opens s c') : c = c' := by
  obtain ⟨n, io, rfl, ht⟩ := h
  obtain ⟨n', io', ha, ht'⟩ := h'
  cases ha
  cases ht.symm.trans ht'
  rfl

/-- The piece table of the session object `r` is finished: `r` gets its first state. -/
def Act.Inits (a : Act) (c : AddCall) (r : Nat) : Prop :=
  a.Opens s c ∧ r = s.nextSess ∨
    ∃ n io, a = .poll n io ∧ s.tasks[n]? = some (.addVerify c r)

def Act.Registers (a : Act) (c : PendingCall) : Prop :=
  ∃ n io, a = .poll n io ∧ s.tasks[n]? = some (.pendingOpen c)

/-- The running sessions an action may start tasks for. -/
def Act.touches (a : Act) (r : Nat) : Prop :=
  (a.scope s).refs r ∨ ∃ c, a.Inserts s c r

/-- The sessions an action may write the resume file of. -/
def Act.saves (a : Act) (r : Nat) : Prop :=
  (a.scope s).saves r ∨ ∃ c, a.Inserts s c r

end

inductive Act.Starts (x : Ext) (s : Session) : Act → Task → Prop
  | begins {a : Act} {t : Task} : a.Begins x s t → Starts x s a t
  | verify {a : Act} {c : AddCall} : a.Opens s c → Starts x s a (.addVerify c s.nextSess)
  | listen {a : Act} {c : AddCall} {r : Nat} (initial : TorrentState) : a.Inits s c r →
    Starts x s a (.addListen c r initial (s.startsPaused c))
  | writer {a : Act} {c : AddCall} {r : Nat} : a.Inserts s c r → Starts x s a (.writer r .recv)
  | promoter {a : Act} {c : PendingCall} : a.Registers s c → c.magnet →
    Starts x s a (.promoter s.nextPend)

lemma Keeps.startsPaused {s s' : Session} (h : Keeps s s') (c : AddCall) :
    s'.startsPaused c = s.startsPaused c := by
  unfold Session.startsPaused
  split
  · rfl
  · cases c.reuse <;> simp [h.startPaused]

def Act.Extends (x : Ext) (s : Session) (a : Act) (old tasks : List Task) : Prop :=
  ∃ new, tasks = old ++ new ∧
    ∀ t ∈ new, t.isLight ∧ (∀ r ∈ t.sessions, a.touches s r) ∨ a.Starts x s t

namespace StepCase

variable {x : Ext} {s s' : Session} {e : Env} {a : Act} {t : Task} {c : AddCall} {r p : Nat}
  {id : TorrentId}

/-- The new tasks: those on the side, and at most one that the step starts. -/
lemma new_tasks (h : StepCase x s e a s') : ∃ (new side : List Task) (st : Option Task),
    s'.tasks = (s.before a).tasks ++ new ∧ new ~ side ++ st.toList ∧
      (∀ t ∈ side, t.isLight ∧ ∀ r ∈ t.sessions, a.touches s r) ∧
      ∀ t, st = some t → a.Starts x s t := by
  have hctrl {al : Scope} {s₁ s₂ : Session} (hc : Ctrl al s₁ s₂)
      (hal : ∀ r, al.refs r → a.touches s r) : ∃ new, s₂.tasks = s₁.tasks ++ new ∧
        ∀ t ∈ new, t.isLight ∧ ∀ r ∈ t.sessions, a.touches s r := by
    obtain ⟨new, htasks, hnew⟩ := hc.tasks
    exact ⟨new, htasks, fun t ht => ⟨(hnew t ht).1, fun r hr => hal r ((hnew t ht).2 r hr)⟩⟩
  cases h with
  | ctrl hc _ =>
    obtain ⟨new, htasks, hnew⟩ := hctrl hc fun _ => .inl
    exact ⟨new, new, none, htasks, by simp, hnew, by simp⟩
  | @suspends _ t _ hb hc _ =>
    obtain ⟨new, htasks, hnew⟩ := hctrl hc fun _ => .inl
    exact ⟨_, new, some t, by simp [spawn, htasks], .rfl, hnew, by simpa using .begins hb⟩
  | removed _ hc =>
    obtain ⟨new, htasks, hnew⟩ := hctrl hc fun _ => False.elim
    exact ⟨new, new, none, htasks, by simp, hnew, by simp⟩
  | metadata => exact ⟨[], [], none, (append_nil _).symm, by simp⟩
  | @opened n io c ht =>
    exact ⟨_, [], some _, rfl, .rfl, by simp, by simpa using .verify ⟨n, io, rfl, ht⟩⟩
  | @openedAll n io c s₁ ht hc =>
    obtain ⟨new, htasks, hnew⟩ := hctrl hc fun _ => False.elim
    rw [show s₁.startsPaused c = s.startsPaused c from hc.keeps.startsPaused c]
    refine ⟨_, new, some _, append_assoc .. ▸ congrArg (· ++ [_]) htasks, .rfl, hnew, ?_⟩
    simpa using .listen _ (.inl ⟨⟨n, io, rfl, ht⟩, rfl⟩)
  | @finished n io c r s₁ ht hc =>
    obtain ⟨new, htasks, hnew⟩ := hctrl hc fun _ => False.elim
    rw [show s₁.startsPaused c = s.startsPaused c from hc.keeps.startsPaused c]
    refine ⟨_, new, some _, append_assoc .. ▸ congrArg (· ++ [_]) htasks, .rfl, hnew, ?_⟩
    simpa using .listen _ (.inr ⟨n, io, rfl, ht⟩)
  | @inserted n io c r initial startPaused _ ht hc =>
    have hins : (Act.poll n io).Inserts s c r := ⟨n, io, initial, startPaused, rfl, ht⟩
    obtain ⟨new, htasks, hnew⟩ := hctrl hc fun r' hr' => .inr ⟨c, hr' ▸ hins⟩
    refine ⟨.writer r .recv :: new, new, some (.writer r .recv), ?_,
      (perm_append_singleton ..).symm, hnew, by simpa using .writer hins⟩
    simp [htasks, place, spawn, modifySess, before]
  | @registered n io c ht =>
    refine ⟨_, [], if c.magnet then some (.promoter s.nextPend) else none, rfl, ?_, by simp, ?_⟩
    · cases c.magnet <;> rfl
    · rintro t hst
      obtain ⟨hm, ⟨⟩⟩ := ite_none_right_eq_some.1 hst
      exact .promoter ⟨n, io, rfl, ht⟩ hm

lemma tasks (h : StepCase x s e a s') : a.Extends x s (s.before a).tasks s'.tasks := by
  obtain ⟨new, side, st, htasks, hperm, hside, hst⟩ := h.new_tasks
  refine ⟨new, htasks, fun t ht => ?_⟩
  rcases mem_append.1 (hperm.mem_iff.1 ht) with ht | ht
  · exact .inl (hside t ht)
  · exact .inr (hst t (mem_toList.1 ht))

lemma mem_before (ht : t ∈ (s.before a).tasks) : t ∈ s.tasks := by
  cases a <;> first | exact ht | exact mem_of_mem_eraseIdx ht

lemma task_cases (h : StepCase x s e a s') (ht : t ∈ s'.tasks) :
    t ∈ s.tasks ∨ t.isLight ∧ (∀ r ∈ t.sessions, a.touches s r) ∨ a.Starts x s t := by
  obtain ⟨new, htasks, hnew⟩ := h.tasks
  rcases mem_append.1 (htasks ▸ ht) with ht | ht
  · exact .inl (mem_before ht)
  · exact .inr (hnew t ht)

/-- A task stays, unless it is the one that goes on. -/
lemma task_kept (h : StepCase x s e a s') (ht : t ∈ s.tasks) :
    t ∈ s'.tasks ∨ ∃ n io, a = .poll n io ∧ s.tasks[n]? = some t := by
  obtain ⟨new, htasks, -⟩ := h.tasks
  rw [htasks]
  cases a with
  | poll n io =>
    rcases Pool.mem_eraseIdx_or n ht with ht | ht
    · exact .inl (mem_append_left _ ht)
    · exact .inr ⟨n, io, rfl, ht⟩
  | _ => exact .inl (mem_append_left _ ht)

lemma countP_before (s : Session) (a : Act) (q : Task → Bool) :
    (s.before a).tasks.countP q + (if (a.polled s).any q then 1 else 0) = s.tasks.countP q := by
  cases a with
  | poll n io =>
    simp only [before, without, Act.polled]
    rcases eq_none_or_eq_some s.tasks[n]? with ht | ⟨t, ht⟩
    · simp [ht, eraseIdx_of_length_le (getElem?_eq_none_iff.1 ht)]
    · simpa only [ht, any_some] using Pool.countP_eraseIdx q ht
  | _ => rfl

lemma polled_any {q : Task → Bool} (ht : a.polled s = some t) (hq : q t) :
    (a.polled s).any q := by
  rw [ht]
  exact hq

section

variable (h : StepCase x s e a s')
include h

lemma countP_tasks {q : Task → Bool} (hlight : ∀ t, t.isLight → q t = false) :
    s'.tasks.countP q = (s.before a).tasks.countP q ∨
      ∃ t ∈ s'.tasks, a.Starts x s t ∧ q t ∧
        s'.tasks.countP q = (s.before a).tasks.countP q + 1 := by
  obtain ⟨new, side, st, htasks, hperm, hside, hst⟩ := h.new_tasks
  have hzero : side.countP q = 0 :=
    countP_eq_zero.2 fun t ht => by simpa using hlight t (hside t ht).1
  rw [htasks, countP_append, hperm.countP_eq, countP_append, hzero]
  cases st with
  | none => exact .inl rfl
  | some t =>
    cases hq : q t with
    | false => simp [hq]
    | true => exact .inr ⟨t, by simp [hperm.mem_iff], hst t rfl, hq, by simp [hq]⟩

lemma adding (ht : t ∈ s'.tasks) (hc : t.adding = some c) :
    (∃ t' ∈ s.tasks, t'.adding = some c ∧ t'.constructs = t.constructs) ∨
      a.Opens s c ∧ t.constructs = some s.nextSess ∨ t = .addOpen c ∧ a.Begins x s t := by
  rcases h.task_cases ht with ht | ⟨hl, -⟩ | hst
  · exact .inl ⟨t, ht, hc, rfl⟩
  · rw [(Task.isLight_counts hl).2.1] at hc
    cases hc
  cases hst with
  | begins hb =>
    cases hb with
    | addMeta hk hnew =>
      cases hc
      exact .inr (.inr ⟨rfl, .addMeta hk hnew⟩)
    | poll ht' hf =>
      cases hf with
      | addVerify c' r =>
        cases hc
        exact .inl ⟨_, mem_of_getElem? ht', rfl, rfl⟩
      | promoter hb hm hnew =>
        cases hc
        exact .inr (.inr ⟨rfl, .poll ht' (.promoter hb hm hnew)⟩)
      | _ => cases hc
    | _ => cases hc
  | verify ho =>
    cases hc
    exact .inr (.inl ⟨ho, rfl⟩)
  | listen initial hi =>
    cases hc
    rcases hi with ⟨ho, rfl⟩ | ⟨n, io, rfl, ht'⟩
    · exact .inr (.inl ⟨ho, rfl⟩)
    · exact .inl ⟨_, mem_of_getElem? ht', rfl, rfl⟩
  | writer | promoter => cases hc

/-- A session object that is being made still is, unless it is inserted. -/
lemma making_kept (ht : t ∈ s.tasks) (hc : t.adding = some c) (hr : t.constructs = some r) :
    (∃ t' ∈ s'.tasks, t'.adding = some c ∧ t'.constructs = some r) ∨ a.Inserts s c r := by
  rcases h.task_kept ht with ht | ⟨n, io, rfl, ht⟩
  · exact .inl ⟨t, ht, hc, hr⟩
  cases h with
  | ctrl _ hends => cases hr.symm.trans (hends t ht).1
  | suspends hb _ _ =>
    cases hb with
    | poll ht' hf =>
      cases ht.symm.trans ht'
      cases hf <;> first | cases hr; done | exact .inl ⟨_, mem_concat_self, hc, hr⟩
  | opened ht' | openedAll ht' _ | registered ht' =>
    cases ht.symm.trans ht'
    cases hr
  | finished ht' _ =>
    cases ht.symm.trans ht'
    cases hc
    cases hr
    exact .inl ⟨_, mem_concat_self, rfl, rfl⟩
  | inserted ht' _ =>
    cases ht.symm.trans ht'
    cases hc
    cases hr
    exact .inr ⟨n, io, _, _, rfl, ht⟩

/-- The writer of a torrent goes on, perhaps after a move. -/
lemma writes_kept (ht : t ∈ s.tasks) (hr : t.writes = some r) :
    ∃ t' ∈ s'.tasks, t'.writes = some r := by
  rcases h.task_kept ht with ht | ⟨n, io, rfl, ht⟩
  · exact ⟨t, ht, hr⟩
  cases h with
  | ctrl _ hends => cases hr.symm.trans (hends t ht).2
  | suspends hb _ _ =>
    cases hb with
    | poll ht' hf =>
      cases ht.symm.trans ht'
      refine ⟨_, mem_concat_self, ?_⟩
      cases hf <;> exact hr
  | opened ht' | openedAll ht' _ | finished ht' _ | inserted ht' _ | registered ht' =>
    cases ht.symm.trans ht'
    cases hr

/-! ## Torrents and magnets -/

lemma torrents (id : TorrentId) :
    s'.torrents.lookup id = s.torrents.lookup id ∨
      (∃ d, a = .removeTorrent id d) ∧ s'.torrents.lookup id = none ∨
      ∃ c r, a.Inserts s c r ∧ c.torrent.infoHash = id ∧ s'.torrents.lookup id = some r := by
  cases h with
  | ctrl hc _ | suspends _ hc _ =>
    exact .inl (congrArg (AList.lookup id) ((before_keeps s a).trans hc.keeps).torrents)
  | @removed id' d _ _ hc =>
    rw [hc.keeps.torrents]
    rcases eq_or_ne id id' with rfl | hne
    · exact .inr (.inl ⟨⟨d, rfl⟩, lookup_erase ..⟩)
    · exact .inl (lookup_erase_ne hne)
  | metadata | opened | registered => exact .inl rfl
  | openedAll _ hc | finished _ hc => exact .inl (congrArg (AList.lookup id) hc.keeps.torrents)
  | @inserted n io c r initial startPaused _ ht hc =>
    rw [hc.keeps.torrents]
    rcases eq_or_ne id c.torrent.infoHash with rfl | hne
    · exact .inr (.inr ⟨c, r, ⟨n, io, initial, startPaused, rfl, ht⟩, rfl, lookup_insert ..⟩)
    · exact .inl (lookup_insert_ne hne)

lemma pending (id : TorrentId) :
    s'.pending.lookup id = s.pending.lookup id ∨
      (∃ d, a = .removeTorrent id d) ∧ s'.pending.lookup id = none ∨
      (∃ c r, a.Inserts s c r ∧ c.torrent.infoHash = id) ∧ s'.pending.lookup id = none ∨
      ∃ c, a.Registers s c ∧ c.infoHash = id ∧ s'.pending.lookup id = some s.nextPend := by
  cases h with
  | ctrl hc _ | suspends _ hc _ =>
    exact .inl (congrArg (AList.lookup id) ((before_keeps s a).trans hc.keeps).pending)
  | @removed id' d _ _ hc =>
    rw [hc.keeps.pending]
    rcases eq_or_ne id id' with rfl | hne
    · exact .inr (.inl ⟨⟨d, rfl⟩, lookup_erase ..⟩)
    · exact .inl (lookup_erase_ne hne)
  | metadata | opened => exact .inl rfl
  | openedAll _ hc | finished _ hc => exact .inl (congrArg (AList.lookup id) hc.keeps.pending)
  | @inserted n io c r initial startPaused _ ht hc =>
    rw [hc.keeps.pending]
    simp only [place]
    split
    · rcases eq_or_ne id c.torrent.infoHash with rfl | hne
      · exact .inr (.inr (.inl ⟨⟨c, r, ⟨n, io, initial, startPaused, rfl, ht⟩, rfl⟩,
          lookup_erase ..⟩))
      · exact .inl (lookup_erase_ne hne)
    · exact .inl rfl
  | @registered n io c ht =>
    rcases eq_or_ne id c.infoHash with rfl | hne
    · exact .inr (.inr (.inr ⟨c, ⟨n, io, rfl, ht⟩, rfl, lookup_insert ..⟩))
    · exact .inl (lookup_insert_ne hne)

/-- What an insertion does. -/
lemma inserts (hi : a.Inserts s c r) :
    ∃ n initial, (∃ io, a = .poll n io) ∧
      Ctrl { refs := fun r' => r' = r, saves := fun r' => r' = r } ((s.without n).place c r initial) s' := by
  obtain ⟨n, io, initial, startPaused, rfl, ht⟩ := hi
  cases h with
  | ctrl _ hends => cases (hends _ ht).1
  | suspends hb _ _ =>
    cases hb with
    | poll ht' hf =>
      cases ht.symm.trans ht'
      cases hf
  | inserted ht' hc =>
    cases ht.symm.trans ht'
    exact ⟨_, _, ⟨_, rfl⟩, hc⟩
  | opened ht' | openedAll ht' _ | finished ht' _ | registered ht' => cases ht.symm.trans ht'

lemma inserts_stored (hi : a.Inserts s c r) :
    s'.torrents.lookup c.torrent.infoHash = some r ∧ .writer r .recv ∈ s'.tasks := by
  obtain ⟨n, initial, -, hc⟩ := h.inserts hi
  obtain ⟨new, htasks, -⟩ := hc.tasks
  refine ⟨hc.keeps.torrents ▸ lookup_insert .., ?_⟩
  rw [htasks]
  exact mem_append_left _ (mem_concat_self)

/-- What is in the session stays, unless it is removed. -/
lemma known (hk : s.known id) (hne : ∀ d, a ≠ .removeTorrent id d) : s'.known id := by
  simp only [Session.known, Bool.or_eq_true, decide_eq_true_eq, ← lookup_isSome] at hk ⊢
  rcases hk with hk | hk
  · refine .inl ?_
    rcases h.torrents id with heq | ⟨⟨d, ha⟩, -⟩ | ⟨c, r, -, -, heq⟩
    · rwa [heq]
    · exact absurd ha (hne d)
    · simp [heq]
  · rcases h.pending id with heq | ⟨⟨d, ha⟩, -⟩ | ⟨⟨c, r, hi, hid⟩, -⟩ | ⟨c, -, -, heq⟩
    · exact .inr (by rwa [heq])
    · exact absurd ha (hne d)
    · exact .inl (by rw [← hid, (h.inserts_stored hi).1]; rfl)
    · exact .inr (by simp [heq])

/-! ## Session objects and magnets -/

lemma grows : Grows s s' := by
  have hw : ∀ n, Grows s (s.without n) := fun n => (without_keeps s n).grows
  cases h with
  | ctrl hc _ => exact ((before_keeps s a).trans hc.keeps).grows
  | suspends _ hc _ =>
    exact (((before_keeps s a).trans hc.keeps).trans (spawn_keeps _ _)).grows
  | removed _ hc => exact (takeOut_grows s _ _).trans hc.keeps.grows
  | metadata _ _ _ => exact metadata_grows s _ _
  | opened _ =>
    exact ((hw _).trans (allocSession_grows _)).trans (spawn_keeps _ _).grows
  | openedAll _ hc =>
    exact ((((hw _).trans (allocSession_grows _)).trans hc.keeps.grows).trans
      (initTorrent_grows _ _ _)).trans (spawn_keeps _ _).grows
  | finished _ hc =>
    exact (((hw _).trans hc.keeps.grows).trans (initTorrent_grows _ _ _)).trans
      (spawn_keeps _ _).grows
  | inserted _ hc => exact ((hw _).trans (place_grows _ _ _ _)).trans hc.keeps.grows
  | registered _ => exact (hw _).trans (registerPending_grows _ _)

lemma running (hr : r < s.nextSess) (hrun : (s'.sess r).running) :
    (s.sess r).running ∨ ∃ c, a.Inserts s c r := by
  cases h with
  | ctrl hc _ | suspends _ hc _ =>
    exact .inl ((((before_keeps s a).trans hc.keeps).running r).symm.trans hrun)
  | removed _ hc => exact .inl (by rwa [hc.keeps.running, takeOut_running] at hrun)
  | metadata | registered => exact .inl hrun
  | @opened n io c ht =>
    rw [(spawn_keeps _ _).running, allocSession_sess (s := s.without n) c hr.ne] at hrun
    exact .inl hrun
  | @openedAll n io c s₁ ht hc =>
    rw [(spawn_keeps _ _).running, initTorrent_running, hc.keeps.running,
      allocSession_sess (s := s.without n) c hr.ne] at hrun
    exact .inl hrun
  | finished _ hc =>
    rw [(spawn_keeps _ _).running, initTorrent_running, hc.keeps.running] at hrun
    exact .inl hrun
  | @inserted n io c r' initial startPaused _ ht hc =>
    rw [hc.keeps.running, (place_sess ..).2.2.2, Bool.or_eq_true] at hrun
    rcases hrun with hrun | hrun
    · exact .inr ⟨c, n, io, initial, startPaused, rfl, of_decide_eq_true hrun ▸ ht⟩
    · exact .inl hrun

/-- A new session object is made from what its `add_torrent_meta` has computed. -/
lemma opens (hlt : s.nextSess < s'.nextSess) :
    ∃ c, a.Opens s c ∧ s'.nextSess = s.nextSess + 1 ∧
      (s'.sess s.nextSess).torrent = c.torrent ∧
      (s'.sess s.nextSess).ctl = s.newCell c ∧
      (s'.sess s.nextSess).place = (.openSync c.torrent c.outputDir, c.outputDir) := by
  have hplace : ∀ n c, (((s.without n).allocSession c).sess s.nextSess).place =
      (.openSync c.torrent c.outputDir, c.outputDir) := by
    intro n c
    simp [allocSession, without, TorrentSession.place]
  have hself := fun n c => allocSession_self (s := s.without n) c
  cases h with
  | ctrl hc _ | suspends _ hc _ =>
    have heq := ((before_keeps s a).trans hc.keeps).nextSess
    exact absurd (hlt.trans_eq heq) (lt_irrefl _)
  | removed _ hc | inserted _ hc => exact absurd (hlt.trans_eq hc.keeps.nextSess) (lt_irrefl _)
  | metadata _ _ _ | registered _ => exact absurd hlt (lt_irrefl _)
  | @opened n io c ht =>
    exact ⟨c, ⟨n, io, rfl, ht⟩, rfl, (hself n c).1, (hself n c).2.1, hplace n c⟩
  | @openedAll n io c s₁ ht hc =>
    refine ⟨c, ⟨n, io, rfl, ht⟩, hc.keeps.nextSess, ?_, ?_, ?_⟩
    · exact (initTorrent_torrent ..).trans ((hc.keeps.torrent _).trans (hself n c).1)
    · exact (initTorrent_ctl ..).trans ((hc.keeps.ctl _).trans (hself n c).2.1)
    · exact (initTorrent_place ..).trans (hc.place_eq.trans (hplace n c))
  | finished _ hc =>
    have heq := hc.keeps.nextSess
    exact absurd (hlt.trans_eq heq) (lt_irrefl _)

/-- A new session object is under construction. -/
lemma opens_making (hlt : s.nextSess < s'.nextSess) :
    ∃ t ∈ s'.tasks, t.constructs = some s.nextSess := by
  obtain ⟨c, ⟨n, io, rfl, ht⟩, -⟩ := h.opens hlt
  cases h with
  | ctrl hc _ | suspends _ hc _ | finished _ hc | inserted _ hc =>
    exact absurd (hlt.trans_eq hc.keeps.nextSess) (lt_irrefl _)
  | opened _ | openedAll _ _ => exact ⟨_, mem_concat_self, rfl⟩
  | registered _ => exact absurd hlt (lt_irrefl _)

lemma place (hr : r < s.nextSess) :
    (s'.sess r).place = (s.sess r).place ∨ (a.scope s).moves r (s'.sess r).place := by
  have hb : (s.before a).sess = s.sess := by cases a <;> rfl
  cases h with
  | ctrl hc _ | suspends _ hc _ => exact hb ▸ hc.place r
  | removed _ hc =>
    refine .inl (hc.place_eq.trans ?_)
    simp only [takeOut]
    split <;> rfl
  | metadata | registered => exact .inl rfl
  | @opened n io c ht =>
    exact .inl (congrArg _ (allocSession_sess (s := s.without n) c hr.ne))
  | @openedAll n io c s₁ ht hc =>
    exact .inl ((initTorrent_place ..).trans (hc.place_eq.trans
      (congrArg _ (allocSession_sess (s := s.without n) c hr.ne))))
  | finished _ hc => exact .inl ((initTorrent_place ..).trans hc.place_eq)
  | @inserted n io c r' initial _ _ ht hc =>
    exact .inl (hc.place_eq.trans (place_place (s.without n) c r' initial r))

/-- A magnet keeps its save path, unless the action sets it. -/
lemma outputDir (hp : p < s.nextPend) :
    (s'.pend p).outputDir = (s.pend p).outputDir ∨
      (a.scope s).movesPend p (s'.pend p).outputDir := by
  have hb : (s.before a).pend = s.pend := by cases a <;> rfl
  cases h with
  | ctrl hc _ | suspends _ hc _ => exact hb ▸ hc.outputDir p
  | removed _ hc | inserted _ hc => exact .inl hc.outputDir_eq
  | @metadata q bytes _ _ _ =>
    exact .inl (modifyPend_pend PendingTorrent.outputDir (by intro; rfl) s q p)
  | opened _ => exact .inl rfl
  | openedAll _ hc | finished _ hc => exact .inl ((initTorrent_outputDir ..).trans hc.outputDir_eq)
  | @registered n io c ht =>
    exact .inl (congrArg _ (registerPending_pend (s.without n) c hp.ne))

lemma slot (hp : p < s.nextPend) :
    (s'.pend p).slot = (s.pend p).slot ∨
      ∃ c r initial, a.Inits s c r ∧ c.reuse = some p ∧ (s'.pend p).slot = some r ∧
        .addListen c r initial (s.startsPaused c) ∈ s'.tasks := by
  have hinit : ∀ {s₁ : Session} {c : AddCall} {r : Nat}, (s₁.pend p).slot = (s.pend p).slot →
      s₁.startsPaused c = s.startsPaused c → a.Inits s c r →
      ((s₁.initTorrent c r).pend p).slot = (s.pend p).slot ∨
        ∃ c' r' initial, a.Inits s c' r' ∧ c'.reuse = some p ∧
          ((s₁.initTorrent c r).pend p).slot = some r' ∧
          .addListen c' r' initial (s.startsPaused c') ∈ ((s₁.initTorrent c r).spawn
            (.addListen c r (s₁.initialState c r) (s₁.startsPaused c))).tasks := by
    intro s₁ c r hslot hst hi
    rw [(initTorrent_pend s₁ c r p).2.2.2, hslot, hst]
    split
    · rename_i hreuse
      exact .inr ⟨c, r, _, hi, hreuse, rfl, mem_concat_self⟩
    · exact .inl rfl
  cases h with
  | ctrl hc _ | suspends _ hc _ => exact .inl (((before_keeps s a).trans hc.keeps).slot p)
  | removed _ hc | inserted _ hc => exact .inl (hc.keeps.slot p)
  | @metadata q bytes _ _ _ =>
    exact .inl (modifyPend_pend PendingTorrent.slot (by intro; rfl) s q p)
  | opened _ => exact .inl rfl
  | @openedAll n io c s₁ ht hc =>
    exact hinit (hc.keeps.slot p) (hc.keeps.startsPaused c) (.inl ⟨⟨n, io, rfl, ht⟩, rfl⟩)
  | @finished n io c r s₁ ht hc =>
    exact hinit (hc.keeps.slot p) (hc.keeps.startsPaused c) (.inr ⟨n, io, rfl, ht⟩)
  | @registered n io c ht =>
    exact .inl (congrArg _ (registerPending_pend (s.without n) c hp.ne))

/-- A new magnet is one that is registered. -/
lemma registers (hge : s.nextPend ≤ p) (hlt : p < s'.nextPend) :
    ∃ c, a.Registers s c ∧ p = s.nextPend ∧ (s'.pend p).slot = none ∧
      (s'.pend p).infoBytes = none ∧ (s'.pend p).placeholder = placeholder c.infoHash c.name ∧
      (s'.pend p).ctl = s.nextCtl := by
  have hnot : s'.nextPend = s.nextPend → False := fun heq => absurd hge (by omega)
  cases h with
  | ctrl hc _ | suspends _ hc _ => exact (hnot ((before_keeps s a).trans hc.keeps).nextPend).elim
  | removed _ hc | openedAll _ hc | finished _ hc | inserted _ hc =>
    exact (hnot hc.keeps.nextPend).elim
  | metadata | opened => exact (hnot rfl).elim
  | @registered n io c ht =>
    obtain rfl : p = s.nextPend := le_antisymm (Nat.lt_succ_iff.1 hlt) hge
    refine ⟨c, ⟨n, io, rfl, ht⟩, rfl, ?_⟩
    simp [registerPending, without]

end

/-! ## State cells and the DHT actor -/

lemma initTorrent_idle {s : Session} {r k : Nat} (hi : (s.sig.ctl k).idle)
    (hp : (s.sess r).ctl = k → s.startsPaused c) : ((s.initTorrent c r).sig.ctl k).idle := by
  simp only [initTorrent, Signals.initState]
  rcases eq_or_ne k (s.sess r).ctl with rfl | hne
  · rw [Function.update_self, initialState, if_pos (hp rfl)]
    exact ⟨rfl, show syncDownloadState .paused ≠ .downloading by decide⟩
  · rwa [Function.update_of_ne hne]

/-- An idle torrent stays idle, unless the action wakes it or it gets a first state. -/
lemma idle (h : StepCase x s e a s') {k : Nat} (hk : k < s.nextCtl) (hi : (s.sig.ctl k).idle)
    (hw : ¬(a.scope s).wakes k)
    (hinit : ∀ c r initial, a.Inits s c r → .addListen c r initial (s.startsPaused c) ∈ s'.tasks →
      (s'.sess r).ctl = k → s.startsPaused c) : (s'.sig.ctl k).idle := by
  have hb : (s.before a).sig = s.sig := by cases a <;> rfl
  cases h with
  | ctrl hc _ | suspends _ hc _ => exact hc.idle k hw (hb ▸ hi)
  | removed _ hc | inserted _ hc => exact hc.idle k id hi
  | metadata => exact hi
  | @opened n io c ht =>
    show (((s.without n).allocSession c).sig.ctl k).idle
    rwa [allocSession_ctl (s := s.without n) c hk]
  | @openedAll n io c s₁ ht hc =>
    have hi₁ : (s₁.sig.ctl k).idle :=
      hc.idle k id (by rwa [allocSession_ctl (s := s.without n) c hk])
    have hst : s₁.startsPaused c = s.startsPaused c := hc.keeps.startsPaused c
    refine initTorrent_idle hi₁ fun heq => hst.trans ?_
    exact hinit c _ _ (.inl ⟨⟨n, io, rfl, ht⟩, rfl⟩) (by rw [hst]; exact mem_concat_self)
      ((initTorrent_ctl ..).trans heq)
  | @finished n io c r s₁ ht hc =>
    have hst : s₁.startsPaused c = s.startsPaused c := hc.keeps.startsPaused c
    refine initTorrent_idle (hc.idle k id hi) fun heq => hst.trans ?_
    exact hinit c r _ (.inr ⟨n, io, rfl, ht⟩) (by rw [hst]; exact mem_concat_self)
      ((initTorrent_ctl ..).trans heq)
  | @registered n io c ht =>
    rwa [registerPending_ctl (s.without n) c hk]

/-- What the DHT actor may be told in a step from `s` to `s'`. -/
def Tells (s s' : Session) (a : Act) : DhtCmd → Prop
  | .addTorrent id _ _ =>
    (∃ c r, a.Inserts s c r ∧ c.torrent.infoHash = id ∧ c.torrent.allowsSource .dht) ∨
      ∃ c, a.Registers s c ∧ c.infoHash = id
  | .setActive id true =>
    ∃ k, s'.cellOf id = some k ∧ ((s.sig.ctl k).idle → (a.scope s).wakes k)
  | _ => True

lemma tells_of_allowed {al : Scope} {s₁ s₂ : Session} {old tx : List DhtCmd}
    (hc : Ctrl al s₁ s₂) (hold : s₁.sig.dhtTx = old) (htx : tx = s₂.sig.dhtTx)
    (hw : ∀ k, al.wakes k → (a.scope s).wakes k) (hcell : ∀ id, s'.cellOf id = s₁.cellOf id)
    (hsig : ∀ id k, s₁.cellOf id = some k → s₁.sig.ctl k = s.sig.ctl k) :
    ∃ new, tx = old ++ new ∧ ∀ cmd ∈ new, Tells s s' a cmd := by
  obtain ⟨new, hnew, hall⟩ := hc.dhtTx
  refine ⟨new, by rw [htx, hnew, hold], fun cmd hm => ?_⟩
  have hcmd := hall cmd hm
  cases cmd with
  | addTorrent => exact hcmd.elim
  | removeTorrent | setAllActive => trivial
  | setActive id active =>
    cases active with
    | false => trivial
    | true =>
      obtain ⟨k, hk, hwake⟩ := hcmd
      exact ⟨k, (hcell id).trans hk, fun hi => hw k (hwake (hsig id k hk ▸ hi))⟩

lemma cellOf_congr (ht : s'.torrents.lookup id = s.torrents.lookup id)
    (hp : s'.pending.lookup id = s.pending.lookup id)
    (hr : ∀ r, s.torrents.lookup id = some r → (s'.sess r).ctl = (s.sess r).ctl)
    (hq : ∀ p, s.pending.lookup id = some p → (s'.pend p).ctl = (s.pend p).ctl) :
    s'.cellOf id = s.cellOf id := by
  unfold cellOf
  rw [ht, hp]
  cases hid : s.torrents.lookup id with
  | some r => exact congrArg some (hr r hid)
  | none =>
    cases hid' : s.pending.lookup id with
    | some p => exact congrArg some (hq p hid')
    | none => rfl

/-- A first state changes nothing about the cells that ids are looked up to. -/
lemma initTorrent_cellOf (s : Session) (c : AddCall) (r : Nat) (id : TorrentId) :
    (s.initTorrent c r).cellOf id = s.cellOf id :=
  cellOf_congr rfl rfl (fun _ _ => initTorrent_ctl ..) fun _ _ => (initTorrent_pend ..).2.1

lemma allocSession_cellOf (hwf : s.Wf x) (c : AddCall) (id : TorrentId) :
    (s.allocSession c).cellOf id = s.cellOf id :=
  cellOf_congr rfl rfl
    (fun r hr => by rw [allocSession_sess c (hwf.torrents id r hr).1.ne]) fun _ _ => rfl

lemma dhtInsert_tells {initial : TorrentState} {cmd : DhtCmd}
    (hi : a.Inserts s c r) (hm : cmd ∈ s.dhtInsert c initial) : Tells s s' a cmd := by
  unfold dhtInsert at hm
  dsimp only at hm
  split at hm
  · rcases mem_append.1 hm with hm | hm <;> split at hm
    · rename_i hdht
      rw [mem_singleton] at hm
      subst hm
      exact .inl ⟨c, r, hi, rfl, hdht⟩
    · cases hm
    · rw [mem_singleton] at hm
      subst hm
      trivial
    · cases hm
  · cases hm

section

variable (h : StepCase x s e a s')
include h

lemma cellOf (hwf : s.Wf x) {k : Nat} (hk : s'.cellOf id = some k) :
    s.cellOf id = some k ∨
      (∃ c r, a.Inserts s c r ∧ c.torrent.infoHash = id ∧ k = (s.sess r).ctl) ∨
      ∃ c, a.Registers s c ∧ c.infoHash = id ∧ s'.sig.ctl k =
        ⟨id, pendingInitial c, syncDownloadState (pendingInitial c)⟩ := by
  cases h with
  | ctrl hc _ | suspends _ hc _ =>
    exact .inl ((((before_keeps s a).trans hc.keeps).cellOf id).symm.trans hk)
  | @removed id' d _ _ hc =>
    rw [hc.keeps.cellOf id] at hk
    rcases eq_or_ne id id' with rfl | hne
    · simp [cellOf, takeOut] at hk
    · have hcell : (s.takeOut id' d).cellOf id = s.cellOf id := by
        refine cellOf_congr (lookup_erase_ne hne) (lookup_erase_ne hne) (fun r _ => ?_)
          fun _ _ => rfl
        simp only [takeOut]
        split <;> rfl
      exact .inl (hcell.symm.trans hk)
  | @metadata p bytes _ _ _ =>
    have hcell : (s.modifyPend p fun t => { t with infoBytes := some bytes }).cellOf id =
        s.cellOf id :=
      cellOf_congr rfl rfl (fun _ _ => rfl) fun p' _ =>
        modifyPend_pend PendingTorrent.ctl (by intro; rfl) s p p'
    exact .inl (hcell.symm.trans hk)
  | @opened n io c ht => exact .inl ((allocSession_cellOf (hwf.without n) c id).symm.trans hk)
  | @openedAll n io c s₁ ht hc =>
    refine .inl ((allocSession_cellOf (hwf.without n) c id).symm.trans ?_)
    rw [← hc.keeps.cellOf id]
    exact (initTorrent_cellOf ..).symm.trans hk
  | finished _ hc =>
    exact .inl ((hc.keeps.cellOf id).symm.trans ((initTorrent_cellOf ..).symm.trans hk))
  | @inserted n io c r initial startPaused _ ht hc =>
    rw [hc.keeps.cellOf id] at hk
    rcases eq_or_ne id c.torrent.infoHash with rfl | hne
    · refine .inr (.inl ⟨c, r, ⟨n, io, initial, startPaused, rfl, ht⟩, rfl, ?_⟩)
      rw [cellOf_torrent (lookup_insert ..), (place_sess ..).2.1] at hk
      exact (some.inj hk).symm
    · have hcell : ((s.without n).place c r initial).cellOf id = s.cellOf id := by
        refine cellOf_congr (lookup_insert_ne hne) ?_ (fun _ _ => (place_sess ..).2.1)
          fun _ _ => rfl
        simp only [Session.place]
        split
        · exact lookup_erase_ne hne
        · rfl
      exact .inl (hcell.symm.trans hk)
  | @registered n io c ht =>
    have hold : ∀ p, s.pending.lookup id = some p →
        (((s.without n).registerPending c).pend p).ctl = (s.pend p).ctl := fun p hp => by
      rw [registerPending_pend (s.without n) c (hwf.pending id p hp).1.ne]
      rfl
    rcases eq_or_ne id c.infoHash with rfl | hne
    · cases hid : s.torrents.lookup c.infoHash with
      | some r =>
        rw [cellOf_torrent (s := (s.without n).registerPending c) hid] at hk
        exact .inl ((cellOf_torrent hid).trans hk)
      | none =>
        rw [cellOf_pending (s := (s.without n).registerPending c) hid (lookup_insert ..)] at hk
        refine .inr (.inr ⟨c, ⟨n, io, rfl, ht⟩, rfl, ?_⟩)
        cases hk
        simp [registerPending, without]
    · have hcell : ((s.without n).registerPending c).cellOf id = s.cellOf id :=
        cellOf_congr rfl (lookup_insert_ne hne) (fun _ _ => rfl) hold
      exact .inl (hcell.symm.trans hk)

lemma dhtTx (hwf : s.Wf x) :
    ∃ new, s'.sig.dhtTx = s.sig.dhtTx ++ new ∧ ∀ cmd ∈ new, Tells s s' a cmd := by
  have hb : (s.before a).sig = s.sig := by cases a <;> rfl
  have hnil : ∃ new, s.sig.dhtTx = s.sig.dhtTx ++ new ∧ ∀ cmd ∈ new, Tells s s' a cmd :=
    ⟨[], by simp⟩
  cases h with
  | ctrl hc _ | suspends _ hc _ =>
    exact tells_of_allowed hc (by rw [hb]) rfl (fun _ h => h) hc.keeps.cellOf
      fun _ _ _ => by rw [hb]
  | removed _ hc =>
    exact tells_of_allowed hc rfl rfl (fun _ h => h.elim) hc.keeps.cellOf fun _ _ _ => rfl
  | metadata | opened => exact hnil
  | @openedAll n io c s₁ ht hc =>
    refine tells_of_allowed hc rfl rfl (fun _ h => h.elim) (fun id => ?_) fun id k hk => ?_
    · exact (initTorrent_cellOf ..).trans (hc.keeps.cellOf id)
    · rw [allocSession_cellOf (hwf.without n) c id] at hk
      exact allocSession_ctl c ((hwf.without n).cellOf_lt hk)
  | @finished n io c r s₁ ht hc =>
    exact tells_of_allowed hc rfl rfl (fun _ h => h.elim)
      (fun id => (initTorrent_cellOf ..).trans (hc.keeps.cellOf id)) fun _ _ _ => rfl
  | @inserted n io c r initial startPaused _ ht hc =>
    have htold := tells_of_allowed (s := s) (a := .poll n io) hc rfl rfl (fun _ h => h.elim)
      hc.keeps.cellOf fun _ _ _ => rfl
    obtain ⟨new, hnew, hall⟩ := htold
    exact ⟨s.dhtInsert c initial ++ new, by rw [hnew, ← append_assoc]; rfl, forall_mem_append.2
      ⟨fun _ hm => dhtInsert_tells ⟨n, io, initial, startPaused, rfl, ht⟩ hm, hall⟩⟩
  | @registered n io c ht =>
    refine ⟨_, rfl, fun cmd hm => ?_⟩
    split at hm
    · rw [mem_singleton] at hm
      subst hm
      exact .inr ⟨c, ⟨n, io, rfl, ht⟩, rfl⟩
    · cases hm

lemma cells : CellRun s.sig.ctl s'.sig.ctl := by
  have hb : (s.before a).sig = s.sig := by cases a <;> rfl
  have hinit : ∀ (s₁ : Session) (c : AddCall) (r : Nat),
      CellRun s₁.sig.ctl (s₁.initTorrent c r).sig.ctl := fun s₁ c r =>
    .setState s₁.sig (s₁.sess r).ctl 0 (s₁.initialState c r)
  have halloc : ∀ n c, CellRun s.sig.ctl ((s.without n).allocSession c).sig.ctl := by
    intro n c
    simp only [allocSession]
    split
    · exact .rfl
    · exact .make s.sig.ctl s.nextCtl c.torrent.infoHash .checking
  cases h with
  | ctrl hc _ | suspends _ hc _ => exact hb ▸ hc.cells
  | removed _ hc | inserted _ hc => exact hc.cells
  | metadata => exact .rfl
  | opened _ => exact halloc _ _
  | openedAll _ hc => exact ((halloc _ _).trans hc.cells).trans (hinit _ _ _)
  | finished _ hc => exact hc.cells.trans (hinit _ _ _)
  | @registered n io c ht =>
    exact .make s.sig.ctl s.nextCtl c.infoHash (pendingInitial c)

/-! ## Options, resume files and add calls -/

lemma options : s'.options = s.options := by
  cases h with
  | ctrl hc _ | suspends _ hc _ => exact ((before_keeps s a).trans hc.keeps).options
  | removed _ hc | openedAll _ hc | finished _ hc | inserted _ hc => exact hc.keeps.options
  | metadata | opened | registered => rfl

lemma resumeFiles (ht : ∀ r, a.saves s r → (s.sess r).torrent.infoHash ≠ id) :
    s'.resumeFiles.lookup id = s.resumeFiles.lookup id ∨
      (∃ d, a = .removeTorrent id d) ∧ s'.resumeFiles.lookup id = none := by
  have hb : (s.before a).sess = s.sess ∧ (s.before a).resumeFiles = s.resumeFiles := by
    cases a <;> exact ⟨rfl, rfl⟩
  have hrefs : ∀ {s₁}, Ctrl (a.scope s) (s.before a) s₁ →
      s₁.resumeFiles.lookup id = s.resumeFiles.lookup id := by
    intro s₁ hc
    rw [hc.resumeFiles id fun r hr => by rw [hb.1]; exact ht r (.inl hr), hb.2]
  cases h with
  | ctrl hc _ | suspends _ hc _ =>
    have hlookup := hrefs hc
    exact .inl hlookup
  | @removed id' d _ _ hc =>
    rw [hc.resumeFiles id fun _ hr => hr.elim]
    simp only [takeOut]
    split
    · rcases eq_or_ne id id' with rfl | hne
      · exact .inr ⟨⟨d, rfl⟩, lookup_erase ..⟩
      · exact .inl (lookup_erase_ne hne)
    · exact .inl rfl
  | metadata _ _ _ | opened _ | registered _ => exact .inl rfl
  | openedAll _ hc | finished _ hc => exact .inl (hc.resumeFiles id fun _ hr => hr.elim)
  | @inserted n io c r initial startPaused _ htask hc =>
    refine .inl (hc.resumeFiles id fun r' hr' => ?_)
    subst hr'
    rw [(place_sess ..).1]
    exact ht r' (.inr ⟨c, n, io, initial, startPaused, rfl, htask⟩)

end

def Returns (s s' : Session) (a : Act) (y : Nat × TorrentId) : Prop :=
  (a.scope s).returns y ∨
    (∃ c r, a.Inserts s c r ∧ c.call = some y.1 ∧ c.torrent.infoHash = y.2) ∨
    ∃ c, a.Registers s c ∧ y = (c.call, c.infoHash) ∧ c.infoHash ∈ s'.pending

lemma returned (h : StepCase x s e a s') :
    ∃ new, s'.returned = s.returned ++ new ∧ ∀ y ∈ new, Returns s s' a y := by
  have hb : (s.before a).returned = s.returned := by cases a <;> rfl
  have hctrl : ∀ {al : Scope} {s₁ s₂ : Session} {l : List (Nat × TorrentId)}, Ctrl al s₁ s₂ →
      s₁.returned = s.returned → l = s₂.returned → (∀ y, al.returns y → (a.scope s).returns y) →
      ∃ new, l = s.returned ++ new ∧ ∀ y ∈ new, Returns s s' a y := by
    intro al s₁ s₂ l hc heq hl hal
    obtain ⟨new, hnew, hall⟩ := hc.returned
    exact ⟨new, by rw [hl, hnew, heq], fun y hy => .inl (hal y (hall y hy))⟩
  have hnil : ∃ new, s.returned = s.returned ++ new ∧ ∀ y ∈ new, Returns s s' a y := ⟨[], by simp⟩
  cases h with
  | ctrl hc _ | suspends _ hc _ => exact hctrl hc hb rfl fun _ h => h
  | removed _ hc | openedAll _ hc | finished _ hc => exact hctrl hc rfl rfl fun _ h => h.elim
  | metadata | opened => exact hnil
  | @inserted n io c r initial startPaused _ ht hc =>
    obtain ⟨new, hnew, hall⟩ := hc.returned
    refine ⟨_ ++ new, hnew.trans (append_assoc ..), forall_mem_append.2
      ⟨fun y hy => ?_, fun y hy => (hall y hy).elim⟩⟩
    obtain ⟨call, hcall, rfl⟩ := map_eq_some_iff.1 (mem_toList.1 hy)
    exact .inr (.inl ⟨c, r, ⟨n, io, initial, startPaused, rfl, ht⟩, hcall, rfl⟩)
  | @registered n io c ht =>
    refine ⟨_, rfl, fun y hy => .inr (.inr ⟨c, ⟨n, io, rfl, ht⟩, mem_singleton.1 hy, ?_⟩)⟩
    simp [registerPending]

lemma Returns.known {y : Nat × TorrentId} (hy : Returns s s' a y) (h : StepCase x s e a s') :
    s'.known y.2 := by
  rcases hy with hy | ⟨c, r, hi, -, hid⟩ | ⟨c, -, rfl, hmem⟩
  · cases a with
    | addMeta | addMagnet | addInfoHash =>
      obtain ⟨rfl, hk⟩ := hy
      exact h.known hk fun _ => nofun
    | poll n io =>
      simp only [Act.scope] at hy
      split at hy <;> exact hy.elim
    | _ => exact hy.elim
  · have hstored := (h.inserts_stored hi).1
    simp [Session.known, ← lookup_isSome, ← hid, hstored]
  · simp [Session.known, hmem]

end StepCase

end BitRev
