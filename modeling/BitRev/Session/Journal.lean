import BitRev.Session.Writes

/-!
# The events as a journal

A subscriber that folds `Added`, `Removed` and `StateChanged` learns which torrents `list` shows and
in which state, as far as every state that is stored is announced. Most are (`Path`), and some are
not: a failed promotion stores its error silently, a torrent added by its info hash is not
announced, and a torrent is announced with the state it started in, which may not be its state any
more. A task of a torrent that has been replaced announces states of the old one.
-/

namespace BitRev

open List Option AList

/-- What a subscriber has learnt from the events. -/
structure View where
  ids : TorrentId → Bool
  states : TorrentId → Option TorrentState

namespace View

def empty : View := ⟨fun _ => false, fun _ => none⟩

def see (v : View) : SessionEvent → View
  | .added id => { v with ids := Function.update v.ids id true }
  | .removed id => { v with ids := Function.update v.ids id false }
  | .stateChanged id st => { v with states := Function.update v.states id (some st) }
  | .completed _ | .error _ _ => v

def replay (events : List SessionEvent) : View := events.foldl see empty

lemma replay_append (events new : List SessionEvent) :
    replay (events ++ new) = new.foldl see (replay events) :=
  foldl_append

lemma replay_filter (events : List SessionEvent) :
    replay (events.filter (·.isEntry)) = replay events := by
  rw [replay, foldl_filter, replay]
  congr 1
  funext v ev
  cases ev <;> rfl

end View

open View

/-- The task leaves nothing out of the journal: a magnet that is registered is announced and no
torrent has its id, a torrent that is inserted is in the state it started in and replaces the magnet
it was, no promotion fails, and a state is stored for a torrent that has not been replaced. -/
def Task.Told (x : Ext) (s : Session) (io : Io) : Task → Prop
  | .pendingOpen c => io.err = none → c.magnet ∧ c.infoHash ∉ s.torrents
  | .addListen c r initial _ => s.state (s.sess r).ctl = initial ∧
    (c.reuse = none → c.torrent.infoHash ∉ s.pending)
  | t => t.fails x s io = false ∧ (t.stores → ∀ r ∈ t.sessions,
    ∀ k ∈ s.cellOf (s.sess r).torrent.infoHash, k = (s.sess r).ctl)

instance (x : Ext) (s : Session) (io : Io) (t : Task) : Decidable (t.Told x s io) := by
  rcases t <;> unfold Task.Told <;> infer_instance

namespace Session

/-- `list`, with the id and the state of each torrent and magnet. -/
def list (s : Session) : List (TorrentId × TorrentState) :=
  (s.torrents.entries.map fun y => (y.1, s.state (s.sess y.2).ctl)) ++
    ((s.pending.entries.filter fun y => y.1 ∉ s.torrents).map fun y =>
      (y.1, s.state (s.pend y.2).ctl))

/-- The tasks that go on leave nothing out of the journal. -/
def Told (x : Ext) (s : Session) : Env × Act → Prop
  | (_, .poll n io) => ∀ t ∈ s.tasks[n]?, t.Told x s io
  | _ => True

instance (x : Ext) (s : Session) : ∀ a, Decidable (s.Told x a) := by
  rintro ⟨e, a⟩
  rcases a <;> unfold Told <;> infer_instance

variable {x : Ext} {P : Write → Prop} {s s₀ s₁ s' : Session} {e : Env} {a : Act} {i : TorrentId}
  {st : TorrentState} {w : Write}

lemma mem_list : (i, st) ∈ s.list ↔ s.stateOf i = some st := by
  simp only [list, mem_append, List.mem_map, mem_filter, Prod.mk.injEq]
  constructor
  · rintro (⟨y, hy, rfl, rfl⟩ | ⟨y, ⟨hy, hnot⟩, rfl, rfl⟩)
    · rw [stateOf, cellOf_torrent (mem_entries_lookup hy)]
      rfl
    · have hnone : s.torrents.lookup y.1 = none :=
        lookup_eq_none.2 (of_decide_eq_true hnot)
      rw [stateOf, cellOf_pending hnone (mem_entries_lookup hy)]
      rfl
  · intro h
    obtain ⟨c, hc, rfl⟩ := map_eq_some_iff.1 h
    unfold cellOf at hc
    split at hc
    · rename_i r hr
      cases hc
      exact .inl ⟨⟨i, r⟩, mem_lookup_iff.1 hr, rfl, rfl⟩
    · rename_i hr
      obtain ⟨p, hp, rfl⟩ := map_eq_some_iff.1 hc
      refine .inr ⟨⟨i, p⟩, ⟨mem_lookup_iff.1 hp, ?_⟩, rfl, rfl⟩
      exact decide_eq_true (lookup_eq_none.1 hr)

/-! ## Stored states -/

/-- The journal is right about the torrent `i`. -/
structure FaithfulAt (s : Session) (i : TorrentId) : Prop where
  ids : (replay s.journal).ids i = (s.cellOf i).isSome
  state : ∀ c, s.cellOf i = some c → (replay s.journal).states i = some (s.state c)

/-- What is stored is the state of the torrent it is announced for, if that is in the session, and
of no other. -/
structure Apt (s : Session) (w : Write) : Prop where
  only : ∀ i, s.cellOf i = some w.cell → i = w.id
  whole : ∀ c, s.cellOf w.id = some c → c = w.cell

lemma Apt.congr (h : s.Apt w) (hcell : ∀ i, s'.cellOf i = s.cellOf i) : s'.Apt w :=
  ⟨fun i hi => h.only i ((hcell i).symm.trans hi), fun c hc => h.whole c ((hcell _).symm.trans hc)⟩

/-- Storing a state and announcing it. -/
lemma FaithfulAt.path (hf : s.FaithfulAt i) (h : Path P s s') (hP : ∀ w, P w → s.Apt w) :
    s'.FaithfulAt i := by
  induction h with
  | still hfr hstate hj =>
    refine ⟨?_, fun c hc => ?_⟩
    · rw [hj, hfr.cellOf]
      exact hf.ids
    · rw [hfr.cellOf] at hc
      rw [hj, hstate i c hc]
      exact hf.state c hc
  | @write s s' w hw hfr hstate hj =>
    have hids : (replay s'.journal).ids = (replay s.journal).ids := by
      rw [hj, replay_append]
      split <;> rfl
    refine ⟨by rw [hids, hfr.cellOf]; exact hf.ids, fun c hc => ?_⟩
    rw [hfr.cellOf] at hc
    rw [hstate i c hc, hj, replay_append]
    rcases eq_or_ne i w.id with rfl | hne
    · have hcell := (hP w hw).whole c hc
      subst hcell
      rw [if_pos rfl]
      split
      · rename_i heq
        rw [← heq]
        exact hf.state _ hc
      · exact Function.update_self ..
    · rw [if_neg fun heq : c = w.cell => hne ((hP w hw).only i (heq ▸ hc))]
      split
      · exact hf.state c hc
      · exact (Function.update_of_ne hne ..).trans (hf.state c hc)
  | trans h₁ _ ih₁ ih₂ =>
    exact ih₂ (ih₁ hf hP) fun w hw => (hP w hw).congr h₁.frame.cellOf

/-- Nothing about the torrent changes but the events, and they are about others. -/
lemma FaithfulAt.of_others (hf : s.FaithfulAt i) (hcell : s'.cellOf i = s.cellOf i)
    (hstate : ∀ c, s.cellOf i = some c → s'.state c = s.state c)
    (hids : (replay s'.journal).ids i = (replay s.journal).ids i)
    (hstates : (replay s'.journal).states i = (replay s.journal).states i) : s'.FaithfulAt i := by
  refine ⟨?_, fun c hc => ?_⟩
  · rw [hids, hcell]
    exact hf.ids
  · rw [hcell] at hc
    rw [hstates, hstate c hc]
    exact hf.state c hc

/-! ## Steps -/

def Apart (s : Session) : Prop :=
  ∀ id r, s.torrents.lookup id = some r → s.pending.lookup id = none

/-- The journal is right about every torrent that is not being inserted. -/
structure Faithful (s : Session) : Prop where
  apart : s.Apart
  entry : ∀ id, s.FaithfulAt id ∨ ∃ t ∈ s.tasks, t.listens = some id

lemma Wf.apt_own (hwf : s.Wf x) (h : s.cellOf w.id = some w.cell) : s.Apt w := by
  refine ⟨fun i hi => ?_, fun c hc => some.inj (hc.symm.trans h)⟩
  exact (hwf.cellOf_infoHash hi).symm.trans (hwf.cellOf_infoHash h)

lemma Wf.apt_sess (hwf : s.Wf x) {r : Nat} (hr : r < s.nextSess)
    (hcell : w.cell = (s.sess r).ctl) (hid : w.id = (s.sess r).torrent.infoHash)
    (hcur : ∀ k ∈ s.cellOf (s.sess r).torrent.infoHash, k = (s.sess r).ctl) : s.Apt w := by
  refine ⟨fun i hi => ?_, fun c hc => ?_⟩
  · rw [hcell] at hi
    exact ((hwf.cellOf_infoHash hi).symm.trans (hwf.sess r hr).2).trans hid.symm
  · rw [hid] at hc
    exact (hcur c hc).trans hcell.symm

/-- What a step stores, if the task that goes on works for a torrent that has not been replaced. -/
lemma Faithful.apt (hf : s.Faithful) (hwf : s.Wf x) (hok : s.Told x (e, a))
    (h : a.Writes s w) : s.Apt w := by
  rcases h with hown | ⟨p, hp, hcell⟩ | ⟨t, r, ht, hstores, hr, hcell, hid⟩
  · exact hwf.apt_own hown
  · refine hwf.apt_own ?_
    have hnone : s.torrents.lookup w.id = none := by
      cases hlook : s.torrents.lookup w.id with
      | none => rfl
      | some r =>
        rw [hf.apart w.id r hlook] at hp
        cases hp
    rw [cellOf_pending hnone hp, hcell]
  · cases a with
    | poll n io =>
      have hlt := ((hwf.tasks t (mem_of_getElem? ht)).sessions r hr).1
      have hguard := hok t ht
      have hcur : ∀ k ∈ s.cellOf (s.sess r).torrent.infoHash, k = (s.sess r).ctl := by
        cases t with
        | addListen | pendingOpen => cases hstores
        | _ => exact hguard.2 hstores r hr
      exact hwf.apt_sess hlt hcell hid hcur
    | _ => cases ht

/-- What is being inserted still is, after a step that does not insert it. -/
lemma listens_kept (hs : StepCase x s e a s') (hpoll : ∀ t, a.polled s = some t → t.listens = none)
    (h : ∃ t ∈ s.tasks, t.listens = some i) : ∃ t ∈ s'.tasks, t.listens = some i := by
  obtain ⟨t, htask, hid⟩ := h
  refine ⟨t, ?_, hid⟩
  rcases hs.task_kept htask with htask | ⟨n, io, rfl, htask⟩
  · exact htask
  · rw [hpoll t htask] at hid
    cases hid

lemma Faithful.along (hpath : Path P s₀ s') (hf : s.Faithful) (hs : StepCase x s e a s')
    (hpoll : ∀ t, a.polled s = some t → t.listens = none) (hsig : s₀.sig = s.sig)
    (ht : s₀.torrents = s.torrents) (hp : s₀.pending = s.pending)
    (hcell : ∀ i, s₀.cellOf i = s.cellOf i) (hP : ∀ w, P w → s.Apt w) : s'.Faithful := by
  refine ⟨fun id r hr => ?_, fun id => ?_⟩
  · rw [hpath.frame.torrents, ht] at hr
    rw [hpath.frame.pending, hp]
    exact hf.apart id r hr
  · rcases hf.entry id with hid | hid
    · have hj : s₀.journal = s.journal := by rw [journal, hsig, journal]
      have hid₀ : s₀.FaithfulAt id := by
        refine hid.of_others (hcell id) (fun c _ => ?_) (by rw [hj]) (by rw [hj])
        rw [state, hsig, state]
      exact .inl (hid₀.path hpath fun w hw => (hP w hw).congr hcell)
    · exact .inr (listens_kept hs hpoll hid)

lemma FaithfulAt.announced {c : Nat} (hcell : s'.cellOf i = some c) (hst : s'.state c = st)
    (hj : s'.journal = s.journal ++ [.added i, .stateChanged i st]) : s'.FaithfulAt i := by
  refine ⟨?_, fun c' hc' => ?_⟩
  · rw [hj, replay_append, hcell]
    exact Function.update_self ..
  · cases hcell.symm.trans hc'
    rw [hj, replay_append, hst]
    exact Function.update_self ..

/-- Another torrent is announced. -/
lemma FaithfulAt.beside (hf : s.FaithfulAt i) {id : TorrentId} (hne : i ≠ id)
    (hcell : s'.cellOf i = s.cellOf i) (hstate : ∀ c, s.cellOf i = some c → s'.state c = s.state c)
    (hj : s'.journal = s.journal ++ [.added id, .stateChanged id st]) : s'.FaithfulAt i := by
  refine hf.of_others hcell hstate ?_ ?_
  · rw [hj, replay_append]
    exact Function.update_of_ne hne ..
  · rw [hj, replay_append]
    exact Function.update_of_ne hne ..

/-- The magnet that becomes a torrent is no magnet any more. -/
lemma Apart.place (ha : s.Apart) {c : AddCall} (r : Nat) (initial : TorrentState)
    (hreuse : c.reuse = none → c.torrent.infoHash ∉ s.pending) : (s.place c r initial).Apart := by
  intro id r' hr
  have hnone : s.pending.lookup id = none → (s.place c r initial).pending.lookup id = none := by
    intro hnone
    simp only [Session.place]
    split
    · rcases eq_or_ne id c.torrent.infoHash with rfl | hne
      · exact lookup_erase ..
      · rw [lookup_erase_ne hne]
        exact hnone
    · exact hnone
  rcases Assoc.lookup_insert_cases hr with ⟨rfl, -⟩ | ⟨-, hold⟩
  · cases hre : c.reuse with
    | none => exact hnone (lookup_eq_none.2 (hreuse hre))
    | some p =>
      simp only [Session.place, hre, isSome_some, if_true]
      exact lookup_erase ..
  · exact hnone (ha id r' hold)

section

variable (hf : s.Faithful)
include hf

lemma Faithful.inserted {n : Nat} {io : Io} {c : AddCall} {r : Nat} {initial : TorrentState}
    {startPaused : Bool} (hs : StepCase x s e (.poll n io) s') (hwf' : s'.Wf x)
    (ht : s.tasks[n]? = some (.addListen c r initial startPaused))
    (hs' : s' = (s.without n).insertTorrent e c r initial startPaused io.saved)
    (hok : (Task.addListen c r initial startPaused).Told x s io) : s'.Faithful := by
  obtain ⟨hinitial, hreuse⟩ := hok
  obtain ⟨s₁, hfr, hstate, hj, hp⟩ := insertTorrent_placed (P := fun _ => False) (s.without n) e c r
    initial startPaused io.saved
  rw [← hs'] at hp
  have hq : Path (fun w => s'.cellOf w.id = some w.cell) s₁ s' := by
    refine (evaluateQueueIf_path fun w hw => ?_).trans (hp.mono fun _ h => h.elim)
    rw [← hw]
    exact hp.frame.cellOf _
  have hapt : ∀ w, s'.cellOf w.id = some w.cell → s₁.Apt w := fun w hw =>
    (hwf'.apt_own hw).congr fun i => (hq.frame.cellOf i).symm
  have hcell : ∀ i, s₁.cellOf i =
      if i = c.torrent.infoHash then some (s.sess r).ctl else s.cellOf i := fun i =>
    (hfr.cellOf i).trans (place_cellOf (s.without n) c r initial i)
  refine ⟨fun id r' hr' => ?_, fun id => ?_⟩
  · rw [hq.frame.torrents, hfr.torrents] at hr'
    rw [hq.frame.pending, hfr.pending]
    exact Apart.place (s := s.without n) hf.apart r initial hreuse id r' hr'
  · rcases eq_or_ne id c.torrent.infoHash with rfl | hne
    · have hown : s₁.cellOf c.torrent.infoHash = some (s.sess r).ctl := by
        rw [hcell, if_pos rfl]
      exact .inl ((FaithfulAt.announced hown ((hstate _).trans hinitial) hj).path hq hapt)
    · rcases hf.entry id with hid | ⟨t, htask, hid⟩
      · refine .inl ((hid.beside hne ?_ (fun k _ => hstate k) hj).path hq hapt)
        rw [hcell, if_neg hne]
      · refine .inr ⟨t, ?_, hid⟩
        rcases hs.task_kept htask with htask | ⟨n', io', heq, htask⟩
        · exact htask
        · cases heq
          cases ht.symm.trans htask
          exact absurd (some.inj hid).symm hne

lemma Faithful.removed {id : TorrentId} {d : Bool} (hs : StepCase x s e (.removeTorrent id d) s')
    (hwf' : s'.Wf x) (hs' : s' = Session.evaluateQueue
      (((s.takeOut id d).dhtSend (.removeTorrent id)).emit (.removed id)) e) : s'.Faithful := by
  subst hs'
  let s₁ := ((s.takeOut id d).dhtSend (.removeTorrent id)).emit (.removed id)
  have hcell : ∀ i, s₁.cellOf i = if i = id then none else s.cellOf i := takeOut_cellOf s id d
  have hj : s₁.journal = s.journal ++ [.removed id] := by
    simp [s₁, journal, emit, Signals.emit, dhtSend, takeOut, SessionEvent.isEntry]
  have hq : Path (fun w => s₁.cellOf w.id = some w.cell) s₁ (s₁.evaluateQueue e) :=
    evaluateQueue_path fun _ h => h
  have hapt : ∀ w, s₁.cellOf w.id = some w.cell → s₁.Apt w := fun w hw =>
    (hwf'.apt_own hw).congr fun _ => rfl
  refine ⟨fun i r hr => ?_, fun i => ?_⟩
  · have hr' := Assoc.lookup_erase_cases (m := s.torrents) hr
    exact (lookup_erase_ne hr'.1).trans (hf.apart i r hr'.2)
  · rcases eq_or_ne i id with rfl | hne
    · refine .inl (FaithfulAt.path ⟨?_, fun c hc => ?_⟩ hq hapt)
      · rw [hcell, if_pos rfl, hj, replay_append]
        exact Function.update_self ..
      · rw [hcell, if_pos rfl] at hc
        cases hc
    · rcases hf.entry i with hi | hi
      · have hi₁ : s₁.FaithfulAt i := by
          refine hi.of_others ?_ (fun _ _ => rfl) ?_ ?_
          · rw [hcell, if_neg hne]
          · rw [hj, replay_append]
            exact Function.update_of_ne hne ..
          · rw [hj, replay_append]
            rfl
        exact .inl (hi₁.path hq hapt)
      · refine .inr (listens_kept hs (fun t ht => ?_) hi)
        cases ht

lemma Faithful.finished {n : Nat} {io : Io} {c : AddCall} {r : Nat}
    (hs : StepCase x s e (.poll n io) s')
    (hpoll : ∀ t, (Act.poll n io).polled s = some t → t.listens = none)
    (hp : Path (fun _ => False) (s.without n) s₁) (hwf₁ : s₁.Wf x) (hcon : Constructed s₁ c r)
    (hs' : s' = (s₁.initTorrent c r).spawn
      (.addListen c r (s₁.initialState c r) (s₁.startsPaused c))) : s'.Faithful := by
  subst hs'
  refine ⟨fun id r' hr' => ?_, fun i => ?_⟩
  · have hr : s₁.torrents.lookup id = some r' := hr'
    rw [hp.frame.torrents] at hr
    have hnone : s₁.pending.lookup id = none := by
      rw [hp.frame.pending]
      exact hf.apart id r' hr
    exact hnone
  · rcases eq_or_ne i c.torrent.infoHash with rfl | hne
    · exact .inr ⟨_, mem_append_right _ mem_cons_self, rfl⟩
    · rcases hf.entry i with hi | hi
      · have hi₀ : (s.without n).FaithfulAt i := ⟨hi.ids, hi.state⟩
        have hi₁ : s₁.FaithfulAt i := hi₀.path hp nofun
        have hcell : ((s₁.initTorrent c r).spawn (.addListen c r (s₁.initialState c r)
          (s₁.startsPaused c))).cellOf i = s₁.cellOf i := StepCase.initTorrent_cellOf s₁ c r i
        refine .inl (hi₁.of_others hcell (fun k hk => ?_) rfl rfl)
        have hother : k ≠ (s₁.sess r).ctl := by
          rintro rfl
          have hid := (hwf₁.cellOf_infoHash hk).symm.trans (hwf₁.sess r hcon.lt).2
          rw [hcon.torrent] at hid
          exact hne hid
        exact (initTorrent_state s₁ c r k).trans (if_neg hother)
      · exact .inr (listens_kept hs hpoll hi)

lemma Faithful.registered {n : Nat} {io : Io} {c : PendingCall}
    (hs : StepCase x s e (.poll n io) ((s.without n).registerPending c)) (hwf : s.Wf x)
    (hpoll : ∀ t, (Act.poll n io).polled s = some t → t.listens = none)
    (hok : c.magnet ∧ c.infoHash ∉ s.torrents) :
    ((s.without n).registerPending c).Faithful := by
  have hcell := registerPending_cellOf (hwf.without n) c
  have hnone : s.torrents.lookup c.infoHash = none := lookup_eq_none.2 hok.2
  have hj : ((s.without n).registerPending c).journal =
      s.journal ++ [.added c.infoHash, .stateChanged c.infoHash (pendingInitial c)] := by
    simp [journal, registerPending, hok.1, without, SessionEvent.isEntry]
  refine ⟨fun id r hr => ?_, fun i => ?_⟩
  · have hr' : s.torrents.lookup id = some r := hr
    have hne : id ≠ c.infoHash := fun heq => by
      rw [heq, hnone] at hr'
      cases hr'
    exact (lookup_insert_ne hne).trans (hf.apart id r hr')
  · rcases eq_or_ne i c.infoHash with rfl | hne
    · refine .inl (FaithfulAt.announced (s := s) ((hcell _).trans (if_pos ⟨rfl, hnone⟩)) ?_ hj)
      simp [state, registerPending]
    · rcases hf.entry i with hi | hi
      · refine .inl (hi.beside hne ((hcell i).trans (if_neg fun h => hne h.1)) (fun k hk => ?_) hj)
        exact registerPending_state (hwf.without n) c hk
      · exact .inr (listens_kept hs hpoll hi)

lemma Faithful.step (hwf : s.Wf x) (hok : s.Told x (e, a)) (h : s.step x (e, a) = some s') :
    s'.Faithful := by
  have hs := step_cases h
  have hwf' := hwf.stepCase hs
  have hfr := before_frame s a
  rcases step_listen h with ⟨n, io, c, r, initial, startPaused, rfl, ht, hs'⟩ | hpoll
  · exact hf.inserted hs hwf' ht hs' (hok _ ht)
  have hsig : (s.before a).sig = s.sig := by cases a <;> rfl
  cases step_course hwf h with
  | quiet hp =>
    exact Faithful.along hp hf hs hpoll hsig hfr.torrents hfr.pending hfr.cellOf fun w hw =>
      hf.apt hwf hok hw.1
  | evals hv =>
    refine Faithful.along (hv.path fun w hw => writes_own a w ?_) hf hs hpoll hsig hfr.torrents
      hfr.pending hfr.cellOf fun w hw => hf.apt hwf hok hw
    rwa [hfr.cellOf] at hw
  | @forced id s₁ _ hopt hres htor hpen hcell hsig₁ hv =>
    refine Faithful.along (hv.path fun w hw => writes_own _ w ?_) hf hs hpoll hsig₁ htor hpen hcell
      fun w hw => hf.apt hwf hok hw
    rwa [hcell] at hw
  | @woken n io t r st _ ht hr hw hp =>
    have hlt := ((hwf.tasks t (mem_of_getElem? ht)).sessions r hr).1
    have hguard := hok t ht
    have hcur : ∀ k ∈ s.cellOf (s.sess r).torrent.infoHash, k = (s.sess r).ctl := by
      cases t with
      | recheck | relocate => exact hguard.2 rfl r hr
      | _ => cases hw
    exact Faithful.along hp hf hs hpoll hsig hfr.torrents hfr.pending hfr.cellOf
      fun w hw => hwf.apt_sess hlt hw.1 hw.2.1 hcur
  | restored on =>
    have hp : Path (fun w => s.cellOf w.id = some w.cell) { s with restoring := on }
      ({ s with restoring := on }.evaluateQueue e) := evaluateQueue_path fun _ hw => hw
    exact Faithful.along hp hf hs hpoll rfl rfl rfl (fun _ => rfl) fun w hw => hwf.apt_own hw
  | removed => exact hf.removed hs hwf' rfl
  | @failed n io t p msg s₁ ht hfails hp =>
    have hguard := hok t ht
    cases t with
    | promoter | addOpen => exact absurd (hfails.symm.trans hguard.1) (by decide)
    | _ => cases hfails
  | finished _ _ hp hwf₁ hcon => exact hf.finished hs hpoll hp hwf₁ hcon rfl
  | inserted ht => cases hpoll _ ht
  | registered ht hio => exact hf.registered hs hwf hpoll (hok _ ht hio)

end

/-- Folding the events gives the torrents that `list` shows, in the states they are in, in every
state in which no torrent is being inserted. -/
theorem journal_faithful (x : Ext) (options : SessionOptions) (categories : Categories)
    (resumeFiles : ResumeFiles) (as : List (Env × Act)) (s : Session)
    (hrun : Run (Session.step x) (Told x) (Session.new options categories resumeFiles) as s)
    (hidle : ∀ t ∈ s.tasks, t.listens = none) :
    (∀ id, (replay s.sig.events).ids id ↔ id ∈ s.list.map (·.1)) ∧
      ∀ id st, (id, st) ∈ s.list → (replay s.sig.events).states id = some st := by
  obtain ⟨-, hf⟩ := hrun.inv (I := fun s => s.Wf x ∧ s.Faithful)
    (fun ⟨hwf, hf⟩ hok h => ⟨hwf.stepCase (step_cases h), hf.step hwf hok h⟩)
    ⟨new_wf .., nofun, fun id => .inl ⟨rfl, nofun⟩⟩
  have hat : ∀ id, s.FaithfulAt id := by
    intro id
    refine (hf.entry id).resolve_right ?_
    rintro ⟨t, ht, hid⟩
    rw [hidle t ht] at hid
    cases hid
  rw [← replay_filter]
  refine ⟨fun id => ?_, fun id st h => ?_⟩
  · have hids := (hat id).ids
    rw [journal] at hids
    rw [hids, ← isSome_map (f := s.state), isSome_iff_exists, List.mem_map]
    constructor
    · rintro ⟨st, hst⟩
      exact ⟨(id, st), mem_list.2 hst, rfl⟩
    · rintro ⟨⟨_, st⟩, hst, rfl⟩
      exact ⟨st, mem_list.1 hst⟩
  · obtain ⟨c, hc, rfl⟩ := map_eq_some_iff.1 (mem_list.1 h)
    exact (hat id).state c hc

def pausedAndMagnet : List (Env × Act) :=
  addOneByte 0 "a" ++
    ([({}, .op (.pause 0)), ({}, .addMagnet 1 ⟨1, none, [], [], []⟩ {}), ({}, .poll 1 {})] :
      List (Env × Act))

theorem journal_faithful_magnet :
    ∃ s, Run (Session.step noExt) (Told noExt) (Session.new {} ∅ ∅) pausedAndMagnet s ∧
      s.list = [(0, .paused), (1, .metadata)] ∧
      (∀ id, (replay s.sig.events).ids id ↔ id ∈ s.list.map (·.1)) ∧
      ∀ id st, (id, st) ∈ s.list → (replay s.sig.events).states id = some st :=
  have hrun := Run.of_isSome
  ⟨_, hrun, by decide +kernel, journal_faithful noExt _ ∅ ∅ _ _ hrun (by decide +kernel)⟩

/-- The `info` dict of a magnet cannot be parsed: `list` shows the error, the journal has the magnet
waiting for it. And a torrent that is added by its info hash is not in the journal. -/
theorem journal_unfaithful : (∃ s, Run (Session.step noExt) anyStep (Session.new {} ∅ ∅)
        [({}, .addMagnet 0 ⟨0, none, [], [], []⟩ {}), ({}, .poll 0 {}), ({}, .metadata 0 []),
          ({}, .poll 0 {})] s ∧
      s.tasks = [] ∧ s.list = [(0, .error "invalid torrent")] ∧
      (replay s.sig.events).states 0 = some .metadata) ∧
    ∃ s, Run (Session.step noExt) anyStep (Session.new {} ∅ ∅)
        [({}, .addInfoHash 0 0 none []), ({}, .poll 0 {})] s ∧
      s.tasks = [] ∧ s.list = [(0, .metadata)] ∧ (replay s.sig.events).ids 0 = false :=
  ⟨⟨_, .of_isSome, by decide, by decide, by decide⟩,
    _, .of_isSome, by decide, by decide, by decide⟩

end Session

end BitRev
