import BitRev.Session.Changes

/-!
# Where the files of a session are

A session keeps the directory of a torrent's files next to the one inside its `Storage`, and a
removal deletes the files by its own copy. `Located` says that the two agree for every torrent of
the session and every one being added, that no two of these have a file in common, and that a magnet
on its way to become a torrent agrees with the session object that is made for it.

`Careful` is what a step has to meet for `Located` to be kept (`Located.stepCase`). The save path is
the weak point: `set_save_path` without moving the files changes one copy only.
-/

namespace BitRev

open BitRev.Path List Option

/-- The storage has the torrent's files open where the session says they are. -/
def TorrentSession.Settled (t : TorrentSession) : Prop :=
  t.storage.Placed ∧ t.storage.torrent = t.torrent ∧
    components t.storage.outputDir = components t.outputDir

def Apart (ps qs : List Bytes) : Prop :=
  ∀ p ∈ ps, ∀ q ∈ qs, components p ≠ components q

instance (ps qs : List Bytes) : Decidable (Apart ps qs) :=
  inferInstanceAs (Decidable (∀ p ∈ ps, ∀ q ∈ qs, components p ≠ components q))

lemma Apart.symm {ps qs : List Bytes} (h : Apart ps qs) : Apart qs ps :=
  fun q hq p hp heq => h p hp q hq heq.symm

lemma Apart.congr {ps ps' qs : List Bytes} (h : Apart ps qs) (hp : Storage.samePaths ps' ps) :
    Apart ps' qs := by
  intro p hmem q hq heq
  obtain ⟨p', hp', heq'⟩ := List.mem_map.1 (hp ▸ mem_map_of_mem hmem)
  exact h p' hp' q hq (heq'.trans heq)

namespace Session

def openSessions (s : Session) : List Nat :=
  s.torrents.entries.map (·.2) ++ s.tasks.filterMap Task.constructs

variable {r p : Nat} {c : AddCall}

lemma mem_openSessions {s : Session} :
    r ∈ s.openSessions ↔ s.inSession r ∨ ∃ t ∈ s.tasks, t.constructs = some r := by
  simp only [openSessions, mem_append, List.mem_map, mem_filterMap, inSession]
  refine or_congr_left ⟨?_, ?_⟩
  · rintro ⟨x, hx, rfl⟩
    exact ⟨x.1, mem_entries_lookup hx⟩
  · rintro ⟨id, hid⟩
    exact ⟨⟨id, r⟩, AList.mem_lookup_iff.1 hid, rfl⟩

def Free (s : Session) (r : Nat) (paths : List Bytes) : Prop :=
  ∀ r' ∈ s.openSessions, r' ≠ r → Apart (s.sess r').storage.files paths

instance (s : Session) (r : Nat) (paths : List Bytes) : Decidable (s.Free r paths) :=
  inferInstanceAs (Decidable (∀ r' ∈ s.openSessions, r' ≠ r →
    Apart (s.sess r').storage.files paths))

def CarefulTask (s : Session) (io : Io) : Task → Prop
  | .addOpen c => s.Free s.nextSess (c.torrent.filePaths c.outputDir)
  | .relocate r _ newOutput _ => r ∈ s.openSessions →
    Storage.RollsBack io.relocate ∧
      (io.relocate = .moved → s.Free r ((s.sess r).torrent.filePaths newOutput))
  | _ => True

instance (s : Session) (io : Io) (t : Task) : Decidable (s.CarefulTask io t) := by
  rcases t <;> unfold CarefulTask <;> infer_instance

def Careful (s : Session) : Env × Act → Prop
  | (_, .op (.setSavePath id path moveFiles)) =>
    (∀ r ∈ s.torrents.lookup id, moveFiles = false →
      components path = components (s.sess r).storage.outputDir) ∧
    ∀ p ∈ s.pendingOnly id, components path = components (s.pend p).outputDir ∨
      ∀ t ∈ s.tasks, ∀ c ∈ t.adding, c.reuse ≠ some p
  | (_, .poll n io) => ∀ t ∈ s.tasks[n]?, s.CarefulTask io t
  | _ => True

instance (s : Session) : ∀ a, Decidable (s.Careful a) := by
  rintro ⟨e, ⟨o⟩ | _⟩
  case op => rcases o <;> unfold Careful <;> infer_instance
  all_goals unfold Careful; infer_instance

structure Located (s : Session) : Prop where
  settled : ∀ r ∈ s.openSessions, (s.sess r).Settled
  apart : ∀ r ∈ s.openSessions, s.Free r (s.sess r).storage.files
  adding : ∀ t ∈ s.tasks, ∀ c p, t.adding = some c → c.reuse = some p →
    components c.outputDir = components (s.pend p).outputDir
  making : ∀ t ∈ s.tasks, ∀ c r, t.adding = some c → t.constructs = some r →
    components (s.sess r).outputDir = components c.outputDir
  slot : ∀ p < s.nextPend, ∀ r, (s.pend p).slot = some r →
    (∀ id, s.pending.lookup id ≠ some p) ∨
      ∃ t ∈ s.tasks, ∃ c, t.adding = some c ∧ t.constructs = some r ∧ c.reuse = some p
  placeholder : ∀ p < s.nextPend, (s.pend p).placeholder.files = []

variable {x : Ext} {s s' : Session} {e : Env} {a : Act}

lemma Wf.openSessions_lt (hwf : s.Wf x) (hr : r ∈ s.openSessions) : r < s.nextSess := by
  rcases mem_openSessions.1 hr with ⟨id, hid⟩ | ⟨t, ht, hr⟩
  · exact (hwf.torrents id r hid).1
  · obtain ⟨c, hc⟩ := Task.constructs_adding hr
    exact ((hwf.tasks t ht).constructs r c hr hc).1

lemma openSessions_stepCase (h : StepCase x s e a s') (hr : r ∈ s'.openSessions) :
    r ∈ s.openSessions ∨ r = s.nextSess := by
  rcases mem_openSessions.1 hr with ⟨id, hid⟩ | ⟨t, ht, hr⟩
  · rcases h.torrents id with heq | ⟨-, hnone⟩ | ⟨c, r', ⟨n, io, _, _, rfl, ht⟩, -, hsome⟩
    · exact .inl (mem_openSessions.2 (.inl ⟨id, heq ▸ hid⟩))
    · rw [hnone] at hid
      cases hid
    · rw [hsome] at hid
      cases hid
      exact .inl (mem_openSessions.2 (.inr ⟨_, mem_of_getElem? ht, rfl⟩))
  · obtain ⟨c, hc⟩ := Task.constructs_adding hr
    rcases h.adding ht hc with ⟨t', ht', -, heq⟩ | ⟨-, hnew⟩ | ⟨rfl, -⟩
    · exact .inl (mem_openSessions.2 (.inr ⟨t', ht', heq.trans hr⟩))
    · exact .inr (some.inj (hr.symm.trans hnew))
    · cases hr

section

variable {pl : Storage × Bytes}

lemma Located.moves (h : s.Located) (hok : s.Careful (e, a)) (hr : r ∈ s.openSessions)
    (hm : (a.scope s).moves r pl) :
    (pl.1.Placed ∧ pl.1.torrent = (s.sess r).torrent ∧
      components pl.1.outputDir = components pl.2) ∧ s.Free r pl.1.files := by
  obtain ⟨hplaced, htorrent, hdir⟩ := h.settled r hr
  cases a with
  | op o =>
    cases o with
    | setSavePath id path moveFiles =>
      cases moveFiles with
      | true => exact hm.elim
      | false =>
        obtain ⟨hid, rfl⟩ := hm
        exact ⟨⟨hplaced, htorrent, (hok.1 r hid rfl).symm⟩, h.apart r hr⟩
    | _ => exact hm.elim
  | poll n io =>
    simp only [Act.scope] at hm
    split at hm
    · rename_i t ht
      cases t with
      | relocate r' previous newOutput after =>
        obtain ⟨rfl, err, hrel, hdir'⟩ := hm
        obtain ⟨hrolls, hfree⟩ := hok _ ht hr
        obtain ⟨hp, ht', hnone, hsome⟩ := Storage.relocate_placed hplaced hrolls hrel
        rw [ht', htorrent]
        cases err with
        | none =>
          obtain ⟨hmoved, hout⟩ := hnone rfl
          rw [if_pos rfl] at hdir'
          refine ⟨⟨hp, rfl, hout.trans (by rw [hdir'])⟩, fun r' hr' hne => ?_⟩
          -- The new files are those the target names, up to the spelling of the directory.
          have hfiles := hp.trans (Storage.filePaths_congr pl.1.torrent hout)
          rw [ht', htorrent] at hfiles
          exact ((hfree hmoved r' hr' hne).symm.congr hfiles).symm
        | some msg =>
          obtain ⟨hout, hfiles⟩ := hsome (by simp)
          rw [if_neg (by simp)] at hdir'
          exact ⟨⟨hp, rfl, by rw [hout, hdir, hdir']⟩, hfiles ▸ h.apart r hr⟩
      | _ => exact hm.elim
    · exact hm.elim
  | _ => exact hm.elim

lemma Located.settled_stepCase (h : s.Located) (hwf : s.Wf x) (hok : s.Careful (e, a))
    (hs : StepCase x s e a s') (hr : r ∈ s'.openSessions) (hlt' : r < s'.nextSess) :
    (s'.sess r).Settled ∧ s.Free r (s'.sess r).storage.files := by
  have hplace : ∀ {t : TorrentSession} {pl : Storage × Bytes}, t.place = pl →
      t.storage = pl.1 ∧ t.outputDir = pl.2 := fun h => ⟨congrArg (·.1) h, congrArg (·.2) h⟩
  rcases openSessions_stepCase hs hr with hold | rfl
  · have hlt := hwf.openSessions_lt hold
    unfold TorrentSession.Settled
    rw [hs.grows.torrent r hlt]
    rcases hs.place hlt with heq | hm
    · rw [(hplace heq).1, (hplace heq).2]
      exact ⟨h.settled r hold, h.apart r hold⟩
    · exact h.moves hok hold hm
  · obtain ⟨c, ⟨n, io, rfl, ht⟩, -, htorrent, -, heq⟩ := hs.opens hlt'
    rw [TorrentSession.Settled, htorrent, (hplace heq).1, (hplace heq).2]
    exact ⟨⟨Storage.openSync_placed .., rfl, rfl⟩, hok _ ht⟩

lemma moves_unique {r r' : Nat} {pl' : Storage × Bytes} (h : (a.scope s).moves r pl)
    (h' : (a.scope s).moves r' pl') : r = r' := by
  cases a with
  | op o =>
    cases o with
    | setSavePath id path moveFiles =>
      cases moveFiles with
      | true => exact h.elim
      | false => exact some.inj (h.1.symm.trans h'.1)
    | _ => exact h.elim
  | poll n io =>
    simp only [Act.scope] at h h'
    split at h
    · rename_i t ht
      simp only [ht] at h'
      cases t with
      | relocate => exact h.1.trans h'.1.symm
      | _ => exact h.elim
    · exact h.elim
  | _ => exact h.elim

lemma opens_moves (ho : a.Opens s c) : ¬(a.scope s).moves r pl := by
  obtain ⟨n, io, rfl, ht⟩ := ho
  simp only [Act.scope, ht]
  exact id

lemma still_stepCase (hwf : s.Wf x) (hwf' : s'.Wf x) (hs : StepCase x s e a s') {r r' : Nat}
    (hr : r ∈ s'.openSessions) (hr' : r' ∈ s'.openSessions) (hne : r ≠ r') :
    (r ∈ s.openSessions ∧ (s'.sess r).storage = (s.sess r).storage) ∨
      r' ∈ s.openSessions ∧ (s'.sess r').storage = (s.sess r').storage := by
  have hstill : ∀ {q}, q ∈ s'.openSessions → q ∈ s.openSessions ∧
      (s'.sess q).storage = (s.sess q).storage ∨ (∃ pl, (a.scope s).moves q pl) ∨
        (∃ c, a.Opens s c) ∧ q = s.nextSess := by
    intro q hq
    rcases openSessions_stepCase hs hq with hold | rfl
    · rcases hs.place (hwf.openSessions_lt hold) with heq | hm
      · exact .inl ⟨hold, congrArg (·.1) heq⟩
      · exact .inr (.inl ⟨_, hm⟩)
    · obtain ⟨c, ho, -⟩ := hs.opens (hwf'.openSessions_lt hq)
      exact .inr (.inr ⟨⟨c, ho⟩, rfl⟩)
  rcases hstill hr with h₁ | ⟨pl, h₁⟩ | ⟨⟨c, h₁⟩, heq⟩
  · exact .inl h₁
  all_goals
    rcases hstill hr' with h₂ | ⟨pl', h₂⟩ | ⟨⟨c', h₂⟩, heq'⟩
    · exact .inr h₂
  · exact absurd (moves_unique h₁ h₂) hne
  · exact absurd h₁ (opens_moves h₂)
  · exact absurd h₂ (opens_moves h₁)
  · exact absurd (heq.trans heq'.symm) hne

lemma Located.apart_stepCase (h : s.Located) (hwf : s.Wf x) (hwf' : s'.Wf x)
    (hok : s.Careful (e, a)) (hs : StepCase x s e a s') (hr : r ∈ s'.openSessions) :
    s'.Free r (s'.sess r).storage.files := by
  intro r' hr' hne
  have hfree := fun {q} (hq : q ∈ s'.openSessions) =>
    (h.settled_stepCase hwf hok hs hq (hwf'.openSessions_lt hq)).2
  rcases still_stepCase hwf hwf' hs hr hr' hne.symm with ⟨hold, heq⟩ | ⟨hold, heq⟩
  · rw [heq]
    exact (hfree hr' r hold hne.symm).symm
  · rw [heq]
    exact hfree hr r' hold hne

lemma movesPend_setSavePath {dir : Bytes} (h : (a.scope s).movesPend p dir) :
    ∃ id path moveFiles, a = .op (.setSavePath id path moveFiles) ∧ s.pendingOnly id = some p ∧
      dir = path := by
  cases a with
  | op o =>
    cases o with
    | setSavePath id path moveFiles => exact ⟨id, path, moveFiles, rfl, h⟩
    | _ => exact h.elim
  | poll n io =>
    simp only [Act.scope] at h
    split at h <;> exact h.elim
  | _ => exact h.elim

lemma Wf.moves_running (hwf : s.Wf x) (h : (a.scope s).moves r pl) : (s.sess r).running := by
  cases a with
  | op o =>
    cases o with
    | setSavePath id path moveFiles =>
      cases moveFiles with
      | true => exact h.elim
      | false => exact (hwf.torrents id r h.1).2.2
    | _ => exact h.elim
  | poll n io =>
    simp only [Act.scope] at h
    split at h
    · rename_i t ht
      cases t with
      | relocate r' _ _ _ =>
        obtain ⟨rfl, -⟩ := h
        exact ((hwf.tasks _ (mem_of_getElem? ht)).sessions _ (by simp)).2
      | _ => exact h.elim
    · exact h.elim
  | _ => exact h.elim

end

/-- A magnet that is not new was registered before. -/
lemma pending_old (hs : StepCase x s e a s') {id : TorrentId} (hp : p < s.nextPend)
    (h : s'.pending.lookup id = some p) : s.pending.lookup id = some p := by
  rcases hs.pending id with heq | ⟨-, heq⟩ | ⟨-, heq⟩ | ⟨c, -, -, heq⟩ <;> rw [heq] at h
  · exact h
  · cases h
  · cases h
  · cases h
    exact absurd hp (lt_irrefl _)

lemma Located.adding_stepCase (h : s.Located) (hwf : s.Wf x) (hok : s.Careful (e, a))
    (hs : StepCase x s e a s') {t : Task} (ht : t ∈ s'.tasks) (hc : t.adding = some c)
    (hp : c.reuse = some p) : components c.outputDir = components (s'.pend p).outputDir := by
  have hold : ∀ t' ∈ s.tasks, t'.adding = some c →
      components c.outputDir = components (s'.pend p).outputDir := by
    intro t' ht' hc'
    have hlt := ((hwf.tasks t' ht').adding c p hc' hp).1
    rcases hs.outputDir hlt with heq | hm
    · rw [heq]
      exact h.adding t' ht' c p hc' hp
    · obtain ⟨id, path, moveFiles, rfl, hid, heq⟩ := movesPend_setSavePath hm
      rcases hok.2 p hid with hsame | hnone
      · rw [heq, hsame]
        exact h.adding t' ht' c p hc' hp
      · exact absurd hp (hnone t' ht' c hc')
  rcases hs.adding ht hc with ⟨t', ht', hc', -⟩ | ⟨⟨n, io, rfl, ht'⟩, -⟩ | ⟨rfl, hb⟩
  · exact hold t' ht' hc'
  · exact hold _ (mem_of_getElem? ht') rfl
  · cases hb with
    | addMeta => cases hp
    | poll ht' hf =>
      cases hf with
      | promoter =>
        cases hp
        have hlt := (hwf.tasks _ (mem_of_getElem? ht')).owner p rfl
        rcases hs.outputDir hlt with heq | hm
        · rw [heq]
          rfl
        · obtain ⟨_, _, _, ha, -⟩ := movesPend_setSavePath hm
          cases ha

lemma Located.making_stepCase (h : s.Located) (hwf : s.Wf x) (hwf' : s'.Wf x)
    (hs : StepCase x s e a s') {t : Task} (ht : t ∈ s'.tasks) (hc : t.adding = some c)
    (hr : t.constructs = some r) : components (s'.sess r).outputDir = components c.outputDir := by
  rcases hs.adding ht hc with ⟨t', ht', hc', hr'⟩ | ⟨ho, hnew⟩ | ⟨rfl, -⟩
  · obtain ⟨hlt, hrun, -⟩ := (hwf.tasks t' ht').constructs r c (hr'.trans hr) hc'
    rcases hs.place hlt with heq | hm
    · rw [show (s'.sess r).outputDir = _ from congrArg (·.2) heq]
      exact h.making t' ht' c r hc' (hr'.trans hr)
    · rw [hwf.moves_running hm] at hrun
      cases hrun
  · cases hr.symm.trans hnew
    obtain ⟨c', ho', -, -, -, heq⟩ := hs.opens ((hwf'.tasks t ht).constructs s.nextSess c hr hc).1
    obtain rfl := ho.unique ho'
    rw [show (s'.sess s.nextSess).outputDir = _ from congrArg (·.2) heq]
  · cases hr

lemma Located.slot_stepCase (h : s.Located) (hwf : s.Wf x) (hs : StepCase x s e a s') {p r : Nat}
    (hp : p < s'.nextPend) (hr : (s'.pend p).slot = some r) :
    (∀ id, s'.pending.lookup id ≠ some p) ∨
      ∃ t ∈ s'.tasks, ∃ c, t.adding = some c ∧ t.constructs = some r ∧ c.reuse = some p := by
  rcases Nat.lt_or_ge p s.nextPend with hlt | hge
  · rcases hs.slot hlt with heq | ⟨c, r', initial, -, hreuse, heq, hmem⟩
    · rcases h.slot p hlt r (heq ▸ hr) with hout | ⟨t, ht, c, hc, hcon, hreuse⟩
      · exact .inl fun id hid => hout id (pending_old hs hlt hid)
      · rcases hs.making_kept ht hc hcon with ⟨t', ht', hc', hcon'⟩ | hi
        · exact .inr ⟨t', ht', c, hc', hcon', hreuse⟩
        · refine .inl fun id hid => ?_
          -- The magnet is erased under the hash of the torrent, which is its own.
          have hid' := pending_old hs hlt hid
          have hhash := ((hwf.tasks t ht).adding c p hc hreuse).2
          rw [(hwf.pending id p hid').2] at hhash
          subst hhash
          obtain ⟨n, initial, -, hctrl⟩ := hs.inserts hi
          rw [hctrl.keeps.pending] at hid
          simp [Session.place, hreuse] at hid
    · rw [hr, some.injEq] at heq
      subst heq
      exact .inr ⟨_, hmem, c, rfl, rfl, hreuse⟩
  · obtain ⟨c, -, -, hnone, -⟩ := hs.registers hge hp
    rw [hnone] at hr
    cases hr

lemma Located.stepCase (h : s.Located) (hwf : s.Wf x) (hwf' : s'.Wf x) (hok : s.Careful (e, a))
    (hs : StepCase x s e a s') : s'.Located where
  settled r hr := (h.settled_stepCase hwf hok hs hr (hwf'.openSessions_lt hr)).1
  apart r hr := h.apart_stepCase hwf hwf' hok hs hr
  adding t ht c p hc hp := h.adding_stepCase hwf hok hs ht hc hp
  making t ht c r hc hr := h.making_stepCase hwf hwf' hs ht hc hr
  slot p hp r hr := h.slot_stepCase hwf hs hp hr
  placeholder p hp := by
    rcases Nat.lt_or_ge p s.nextPend with hlt | hge
    · rw [hs.grows.placeholder p hlt]
      exact h.placeholder p hlt
    · obtain ⟨c, -, -, -, -, heq, -⟩ := hs.registers hge hp
      rw [heq]
      rfl

lemma new_located (options categories resumeFiles) :
    (Session.new options categories resumeFiles).Located := by
  refine ⟨?_, ?_, ?_, ?_, ?_, ?_⟩ <;> simp [Session.new, openSessions]

lemma run_located {as : List (Env × Act)} (h : Run (step x) Careful s as s') (hwf : s.Wf x)
    (hs : s.Located) : s'.Wf x ∧ s'.Located :=
  h.inv (I := fun s => s.Wf x ∧ s.Located) (fun ⟨hwf, hl⟩ hok hstep =>
    have hwf' := hwf.stepCase (step_cases hstep)
    ⟨hwf', hl.stepCase hwf hwf' hok (step_cases hstep)⟩) ⟨hwf, hs⟩

/-! ## Removal -/

def openFiles (s : Session) (id : TorrentId) : List Bytes :=
  match s.torrents.lookup id, s.pending.lookup id with
  | some r, _ => (s.sess r).storage.files
  | none, some p =>
    match (s.pend p).slot with
    | some r => (s.sess r).storage.files
    | none => []
  | none, none => []

lemma Located.openFiles_cases (h : s.Located) (hwf : s.Wf x) (id : TorrentId) :
    s.openFiles id = [] ∧ s.filesToDelete id = [] ∨
      ∃ r ∈ s.openSessions, (s.sess r).torrent.infoHash = id ∧
        s.openFiles id = (s.sess r).storage.files ∧
        Storage.samePaths (s.filesToDelete id) (s.openFiles id) := by
  have hsame : ∀ {r : Nat} {dir : Bytes}, r ∈ s.openSessions →
      components dir = components (s.sess r).outputDir →
      Storage.samePaths ((s.sess r).torrent.filePaths dir) (s.sess r).storage.files := by
    intro r dir hr hdir
    obtain ⟨hplaced, htorrent, hout⟩ := h.settled r hr
    rw [← htorrent]
    exact (Storage.filePaths_congr _ (hdir.trans hout.symm)).trans hplaced.symm
  unfold openFiles filesToDelete
  cases ht : s.torrents.lookup id with
  | some r =>
    have hr : r ∈ s.openSessions := mem_openSessions.2 (.inl ⟨id, ht⟩)
    exact .inr ⟨r, hr, (hwf.torrents id r ht).2.1, rfl, hsame hr rfl⟩
  | none =>
    cases hp : s.pending.lookup id with
    | none => exact .inl ⟨rfl, rfl⟩
    | some p =>
      obtain ⟨hlt, hhash⟩ := hwf.pending id p hp
      cases hslot : (s.pend p).slot with
      | none =>
        refine .inl ⟨by simp only [hslot], ?_⟩
        simp [pendingTorrent, hslot, Torrent.filePaths, h.placeholder p hlt]
      | some r =>
        rcases h.slot p hlt r hslot with hout | ⟨t, htask, c, hc, hcon, hreuse⟩
        · exact absurd hp (hout id)
        · have hopen : r ∈ s.openSessions := mem_openSessions.2 (.inr ⟨t, htask, hcon⟩)
          refine .inr ⟨r, hopen, ?_, by simp only [hslot], ?_⟩
          · rw [(hwf.slot_infoHash hlt hslot).2, hhash]
          · simp only [pendingTorrent, hslot]
            exact hsame hopen ((h.adding t htask c p hc hreuse).symm.trans
              (h.making t htask c r hc hcon).symm)

/-- After careful steps, removing a torrent with its files deletes the files its storage has open,
and none that the storage of another torrent has open. -/
theorem removeTorrent_deletes (options : SessionOptions) (categories : Categories)
    (resumeFiles : ResumeFiles) (as : List (Env × Act))
    (h : Run (step x) Careful (Session.new options categories resumeFiles) as s)
    (id : TorrentId) (hr : s.removeTorrent e id true = .ok s') :
    ∃ gone, s'.deleted = s.deleted ++ gone ∧ Storage.samePaths gone (s.openFiles id) ∧
      ∀ id', id' ≠ id → Apart gone (s.openFiles id') := by
  obtain ⟨hwf, hl⟩ := run_located h (new_wf ..) (new_located ..)
  have hdel : s'.deleted = s.deleted ++ s.filesToDelete id := by
    unfold removeTorrent at hr
    split at hr <;> cases hr
    rfl
  refine ⟨s.filesToDelete id, hdel, ?_, fun id' hne => ?_⟩
  · rcases hl.openFiles_cases hwf id with ⟨h₁, h₂⟩ | ⟨r, -, -, -, hsame⟩
    · rw [h₁, h₂]
      rfl
    · exact hsame
  · rcases hl.openFiles_cases hwf id with ⟨-, h₂⟩ | ⟨r, hr, hhash, heq, hsame⟩
    · rw [h₂]
      exact fun p hp => absurd hp (not_mem_nil)
    rcases hl.openFiles_cases hwf id' with ⟨h₁, -⟩ | ⟨r', hr', hhash', heq', -⟩
    · rw [h₁]
      exact fun _ _ q hq => absurd hq (not_mem_nil)
    · have hrr : r ≠ r' := fun hrr => hne (hhash'.symm.trans (hrr ▸ hhash))
      rw [heq']
      exact Apart.congr (heq ▸ hl.apart r' hr' r hr hrr) hsame

/-- A file that was just added is deleted with its torrent. -/
theorem removeTorrent_deletes_added : let s := reached Careful (addOneByte 1 "/a/x") (by decide)
    ∃ s', s.removeTorrent {} 1 true = .ok s' ∧ s.openFiles 1 = [ascii "/a/x"] ∧
      ∃ gone, s'.deleted = s.deleted ++ gone ∧ Storage.samePaths gone (s.openFiles 1) ∧
        ∀ id', id' ≠ 1 → Apart gone (s.openFiles id') :=
  ⟨_, if_pos (by decide), by decide,
    removeTorrent_deletes {} ∅ ∅ _ (.of_isSome _) 1 (if_pos (by decide))⟩

def setPathOnly : List (Env × Act) :=
  addOneByte 1 "/a/x" ++ [(({} : Env), .op (.setSavePath 1 (ascii "/b/x") false))]

/-- Then the removal deletes a path that was never opened, and leaves the open file. -/
theorem removeTorrent_deletes_other : let s := reached anyStep setPathOnly (by decide)
    Run (step noExt) anyStep (Session.new {} ∅ ∅) setPathOnly s ∧ ∃ s', s.removeTorrent {} 1 true =
      .ok s' ∧ s.openFiles 1 = [ascii "/a/x"] ∧ s.deleted = [] ∧ s'.deleted = [ascii "/b/x"] :=
  ⟨.of_isSome _, _, if_pos (by decide), by decide, by decide, by decide⟩

end Session

end BitRev
