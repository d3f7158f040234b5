import BitRev.Framework.Assoc
import BitRev.Session.Cases

/-!
# Well-formed sessions

`Wf` holds in every state a session reaches (`run_wf`): what the maps, slots and tasks refer to
exists and is about the torrent it is filed under; the state cells of a torrent carry its info
hash; a session object is under construction in one task at most and runs only afterwards; and no
two session objects share their state cells. The last needs more: the cells of a magnet go to one
session only, so the tasks that will still make a session of them are counted with the sessions
that have them.
-/

namespace BitRev

open BitRev.Task List Option Function

namespace Task

/-- The pending magnet whose cells a task will give to a session object. -/
def owner : Task → Option Nat
  | .promoter p => some p
  | .addOpen c => c.reuse
  | _ => none

/-- The cells a task will give to a session object. -/
def owns (s : Session) (c : Nat) (t : Task) : Bool := t.owner.any fun p => (s.pend p).ctl = c

lemma owns_iff {s : Session} {c : Nat} {t : Task} :
    t.owns s c ↔ ∃ p, t.owner = some p ∧ (s.pend p).ctl = c := by
  unfold owns
  cases t.owner <;> simp

structure Wf (s : Session) (t : Task) : Prop where
  sessions : ∀ r ∈ t.sessions, r < s.nextSess ∧ (s.sess r).running
  owner : ∀ p, t.owner = some p → p < s.nextPend
  adding : ∀ c p, t.adding = some c → c.reuse = some p →
    p < s.nextPend ∧ (s.pend p).placeholder.infoHash = c.torrent.infoHash
  constructs : ∀ r c, t.constructs = some r → t.adding = some c →
    r < s.nextSess ∧ (s.sess r).running = false ∧ (s.sess r).torrent = c.torrent ∧
      ∀ p, c.reuse = some p → (s.pend p).ctl = (s.sess r).ctl

end Task

namespace Session

/-- How many session objects have the cells `c`. -/
def sessionsOn (s : Session) (c : Nat) : Nat :=
  (List.range s.nextSess).countP fun r => (s.sess r).ctl = c

structure Wf (x : Ext) (s : Session) : Prop where
  torrents : ∀ id r, s.torrents.lookup id = some r →
    r < s.nextSess ∧ (s.sess r).torrent.infoHash = id ∧ (s.sess r).running
  pending : ∀ id p, s.pending.lookup id = some p →
    p < s.nextPend ∧ (s.pend p).placeholder.infoHash = id
  sess : ∀ r < s.nextSess, (s.sess r).ctl < s.nextCtl ∧
    (s.sig.ctl (s.sess r).ctl).infoHash = (s.sess r).torrent.infoHash
  pend : ∀ p < s.nextPend, (s.pend p).ctl < s.nextCtl ∧
    (s.sig.ctl (s.pend p).ctl).infoHash = (s.pend p).placeholder.infoHash
  infoBytes : ∀ p < s.nextPend, ∀ bytes, (s.pend p).infoBytes = some bytes →
    x.sha1 bytes = (s.pend p).placeholder.infoHash
  slot : ∀ p < s.nextPend, ∀ r, (s.pend p).slot = some r →
    r < s.nextSess ∧ (s.sess r).ctl = (s.pend p).ctl
  tasks : ∀ t ∈ s.tasks, t.Wf s
  /-- A session object is made in one place. -/
  constructs : ∀ r, s.tasks.countP (·.constructs = some r) ≤ 1
  /-- Cells belong to one session object, or will. -/
  cells : ∀ c, s.tasks.countP (owns s c) + s.sessionsOn c ≤ 1

end Session

/-- The objects of `s` are in `s'`, perhaps with more. -/
structure Grows (s s' : Session) : Prop where
  nextSess : s.nextSess ≤ s'.nextSess
  nextPend : s.nextPend ≤ s'.nextPend
  nextCtl : s.nextCtl ≤ s'.nextCtl
  torrent : ∀ r < s.nextSess, (s'.sess r).torrent = (s.sess r).torrent
  ctl : ∀ r < s.nextSess, (s'.sess r).ctl = (s.sess r).ctl
  running : ∀ r < s.nextSess, (s.sess r).running → (s'.sess r).running
  placeholder : ∀ p < s.nextPend, (s'.pend p).placeholder = (s.pend p).placeholder
  pendCtl : ∀ p < s.nextPend, (s'.pend p).ctl = (s.pend p).ctl
  infoHash : ∀ c < s.nextCtl, (s'.sig.ctl c).infoHash = (s.sig.ctl c).infoHash

lemma Keeps.grows {s s' : Session} (h : Keeps s s') : Grows s s' where
  nextSess := h.nextSess.ge
  nextPend := h.nextPend.ge
  nextCtl := h.nextCtl.ge
  torrent r _ := h.torrent r
  ctl r _ := h.ctl r
  running r _ hr := (h.running r).trans hr
  placeholder p _ := h.placeholder p
  pendCtl p _ := h.pendCtl p
  infoHash c _ := h.infoHash c

lemma Grows.trans {s s₁ s' : Session} (h : Grows s s₁) (h' : Grows s₁ s') : Grows s s' where
  nextSess := h.nextSess.trans h'.nextSess
  nextPend := h.nextPend.trans h'.nextPend
  nextCtl := h.nextCtl.trans h'.nextCtl
  torrent r hr := (h'.torrent r (hr.trans_le h.nextSess)).trans (h.torrent r hr)
  ctl r hr := (h'.ctl r (hr.trans_le h.nextSess)).trans (h.ctl r hr)
  running r hr hrun := h'.running r (hr.trans_le h.nextSess) (h.running r hr hrun)
  placeholder p hp := (h'.placeholder p (hp.trans_le h.nextPend)).trans (h.placeholder p hp)
  pendCtl p hp := (h'.pendCtl p (hp.trans_le h.nextPend)).trans (h.pendCtl p hp)
  infoHash c hc := (h'.infoHash c (hc.trans_le h.nextCtl)).trans (h.infoHash c hc)

/-- A task stays well-formed, if the session object it makes is not taken into use. -/
lemma Task.Wf.grows {s s' : Session} {t : Task} (h : t.Wf s) (hg : Grows s s')
    (hc : ∀ r, t.constructs = some r → (s.sess r).running = false → (s'.sess r).running = false) :
    t.Wf s' where
  sessions r hr := by
    obtain ⟨hlt, hrun⟩ := h.sessions r hr
    exact ⟨hlt.trans_le hg.nextSess, hg.running r hlt hrun⟩
  owner p hp := (h.owner p hp).trans_le hg.nextPend
  adding c p hc hp := by
    obtain ⟨hlt, hhash⟩ := h.adding c p hc hp
    exact ⟨hlt.trans_le hg.nextPend, by rw [hg.placeholder p hlt, hhash]⟩
  constructs r c hr hadd := by
    obtain ⟨hlt, hrun, ht, hctl⟩ := h.constructs r c hr hadd
    refine ⟨hlt.trans_le hg.nextSess, hc r hr hrun, (hg.torrent r hlt).trans ht, fun p hp => ?_⟩
    rw [hg.pendCtl p (h.adding c p hadd hp).1, hg.ctl r hlt]
    exact hctl p hp

lemma Task.Wf.of_sessions {s : Session} {t : Task} (hc : t.constructs = none) (ha : t.adding = none)
    (ho : t.owner = none)
    (h : ∀ r ∈ t.sessions, r < s.nextSess ∧ (s.sess r).running) : t.Wf s :=
  ⟨h, by simp [ho], by simp [ha], by simp [hc]⟩

section

variable {s s' : Session}

/-- Tasks that an operation starts on the side make no session object. -/
lemma Task.isLight_counts {t : Task} (h : t.isLight) :
    t.constructs = none ∧ t.adding = none ∧ t.owner = none := by
  cases t <;> first | exact ⟨rfl, rfl, rfl⟩ | cases h

lemma Keeps.owns (h : Keeps s s') (c : Nat) : owns s' c = owns s c := by
  funext t
  simp only [Task.owns, h.pendCtl]

lemma Keeps.sessionsOn (h : Keeps s s') (c : Nat) : s'.sessionsOn c = s.sessionsOn c := by
  simp only [Session.sessionsOn, h.nextSess, h.ctl]

/-- What a step starts on the side is not counted. -/
lemma Ctrl.countP {al : Scope} (h : Ctrl al s s') {q : Task → Bool}
    (hq : ∀ t, t.isLight → q t = false) : s'.tasks.countP q = s.tasks.countP q := by
  obtain ⟨new, htasks, hnew⟩ := h.tasks
  have hzero : new.countP q = 0 :=
    countP_eq_zero.2 fun t ht => by simpa using hq t (hnew t ht).1
  rw [htasks, countP_append, hzero, add_zero]

lemma Ctrl.constructs {al : Scope} (h : Ctrl al s s') (r : Nat) :
    s'.tasks.countP (·.constructs = some r) = s.tasks.countP (·.constructs = some r) :=
  h.countP fun t ht => by simp [(isLight_counts ht).1]

lemma Ctrl.owners {al : Scope} (h : Ctrl al s s') (c : Nat) :
    s'.tasks.countP (owns s' c) + s'.sessionsOn c = s.tasks.countP (owns s c) + s.sessionsOn c := by
  rw [h.keeps.owns, h.keeps.sessionsOn,
    h.countP fun t ht => by simp [owns, (isLight_counts ht).2.2]]

end

namespace Session

variable {x : Ext} {s s' : Session} {e : Env} {t : Task} {a : Act}

lemma new_wf (options categories resumeFiles) :
    (Session.new options categories resumeFiles).Wf x := by
  refine ⟨?_, ?_, ?_, ?_, ?_, ?_, ?_, ?_, ?_⟩ <;> simp [Session.new, sessionsOn]

/-- The cells of a session determine it. -/
lemma Wf.ctl_inj (h : s.Wf x) {r r' : Nat} (hr : r < s.nextSess) (hr' : r' < s.nextSess)
    (heq : (s.sess r).ctl = (s.sess r').ctl) : r = r' :=
  Pool.eq_of_countP_le_one (le_trans (Nat.le_add_left _ _) (h.cells (s.sess r').ctl))
    (mem_range.2 hr) (mem_range.2 hr') (by simpa using heq) (by simp)

lemma Wf.slot_infoHash (hwf : s.Wf x) {p r : Nat} (hp : p < s.nextPend)
    (hr : (s.pend p).slot = some r) :
    r < s.nextSess ∧ (s.sess r).torrent.infoHash = (s.pend p).placeholder.infoHash := by
  obtain ⟨hlt, hctl⟩ := hwf.slot p hp r hr
  exact ⟨hlt, by rw [← (hwf.sess r hlt).2, hctl, (hwf.pend p hp).2]⟩

lemma Wf.cellOf_infoHash (hwf : s.Wf x) {id : TorrentId} {k : Nat} (hk : s.cellOf id = some k) :
    (s.sig.ctl k).infoHash = id := by
  unfold Session.cellOf at hk
  split at hk
  · rename_i r hr
    cases hk
    obtain ⟨hlt, hhash, -⟩ := hwf.torrents id r hr
    exact (hwf.sess r hlt).2.trans hhash
  · obtain ⟨p, hp, rfl⟩ := map_eq_some_iff.1 hk
    obtain ⟨hlt, hhash⟩ := hwf.pending id p hp
    exact (hwf.pend p hlt).2.trans hhash

lemma Wf.cellOf_lt (hwf : s.Wf x) {id : TorrentId} {k : Nat} (hk : s.cellOf id = some k) :
    k < s.nextCtl := by
  unfold Session.cellOf at hk
  split at hk
  · rename_i r hr
    cases hk
    exact (hwf.sess r (hwf.torrents id r hr).1).1
  · obtain ⟨p, hp, rfl⟩ := map_eq_some_iff.1 hk
    exact (hwf.pend p (hwf.pending id p hp).1).1

/-- A session object under construction has cells of its own. -/
lemma Wf.making_ctl (hwf : s.Wf x) {c : AddCall} {r r' : Nat} (ht : t ∈ s.tasks)
    (hadd : t.adding = some c) (hr : t.constructs = some r) (hr' : r' < s.nextSess)
    (hrun : (s.sess r').running) : (s.sess r).ctl ≠ (s.sess r').ctl := by
  obtain ⟨hlt, hrun', -⟩ := (hwf.tasks t ht).constructs r c hr hadd
  intro heq
  rw [hwf.ctl_inj hlt hr' heq, hrun] at hrun'
  cases hrun'

lemma without_keeps (s : Session) (n : Nat) : Keeps s (s.without n) :=
  { Keeps.rfl (s := s) with }

lemma Wf.without (h : s.Wf x) (n : Nat) : (s.without n).Wf x where
  __ := h
  tasks t ht := (h.tasks t (mem_of_mem_eraseIdx ht)).grows (without_keeps s n).grows fun _ _ h => h
  constructs r := (Pool.countP_eraseIdx_le _ _ n).trans (h.constructs r)
  cells c := (Nat.add_le_add_right (Pool.countP_eraseIdx_le _ _ n) _).trans (h.cells c)

lemma Wf.before (h : s.Wf x) (a : Act) : (s.before a).Wf x := by
  cases a <;> first | exact h | exact h.without _

/-- A step that stays within a scope of running sessions keeps a session well-formed. -/
lemma Wf.ctrl {al : Scope} (h : s.Wf x) (hc : Ctrl al s s')
    (hr : ∀ r, al.refs r → r < s.nextSess ∧ (s.sess r).running) : s'.Wf x := by
  obtain ⟨new, htasks, hnew⟩ := hc.tasks
  have hk := hc.keeps
  refine ⟨?_, ?_, ?_, ?_, ?_, ?_, ?_, fun r => ?_, fun c => ?_⟩
  · intro id r hid
    rw [hk.torrents] at hid
    rw [hk.nextSess, hk.torrent, hk.running]
    exact h.torrents id r hid
  · intro id p hid
    rw [hk.pending] at hid
    rw [hk.nextPend, hk.placeholder]
    exact h.pending id p hid
  · intro r hlt
    rw [hk.nextSess] at hlt
    rw [hk.ctl, hk.infoHash, hk.torrent, hk.nextCtl]
    exact h.sess r hlt
  · intro p hlt
    rw [hk.nextPend] at hlt
    rw [hk.pendCtl, hk.infoHash, hk.placeholder, hk.nextCtl]
    exact h.pend p hlt
  · intro p hlt bytes hb
    rw [hk.nextPend] at hlt
    rw [hk.infoBytes] at hb
    rw [hk.placeholder]
    exact h.infoBytes p hlt bytes hb
  · intro p hlt r hs
    rw [hk.nextPend] at hlt
    rw [hk.slot] at hs
    rw [hk.nextSess, hk.ctl, hk.pendCtl]
    exact h.slot p hlt r hs
  · rw [htasks]
    refine forall_mem_append.2 ⟨fun t ht => ?_, fun t ht => ?_⟩
    · exact (h.tasks t ht).grows hk.grows fun r _ hrun => (hk.running r).trans hrun
    · obtain ⟨hl, hrefs⟩ := hnew t ht
      obtain ⟨h₁, h₂, h₃⟩ := isLight_counts hl
      refine ⟨fun r hmem => ?_, by simp [h₃], by simp [h₂], by simp [h₁]⟩
      rw [hk.nextSess, hk.running]
      exact hr r (hrefs r hmem)
  · rw [hc.constructs]
    exact h.constructs r
  · rw [hc.owners]
    exact h.cells c

lemma spawn_keeps (s : Session) (t : Task) : Keeps s (s.spawn t) :=
  { Keeps.rfl (s := s) with }

lemma Wf.spawn (h : s.Wf x) (ht : t.Wf s)
    (hcon : ∀ r, t.constructs = some r → s.tasks.countP (·.constructs = some r) = 0)
    (hown : ∀ p, t.owner = some p →
      s.tasks.countP (owns s (s.pend p).ctl) + s.sessionsOn (s.pend p).ctl = 0) :
    (s.spawn t).Wf x := by
  have hk := spawn_keeps s t
  refine ⟨h.torrents, h.pending, h.sess, h.pend, h.infoBytes, h.slot, ?_, fun r => ?_, fun c => ?_⟩
  · exact forall_mem_append.2 ⟨fun t' ht' => (h.tasks t' ht').grows hk.grows fun _ _ h => h,
      forall_mem_singleton.2 (ht.grows hk.grows fun _ _ h => h)⟩
  · rw [Session.spawn, countP_append, countP_singleton]
    by_cases hr : t.constructs = some r
    · rw [hcon r hr]
      split <;> omega
    · rw [if_neg (by simpa using hr)]
      exact h.constructs r
  · rw [hk.owns, hk.sessionsOn, Session.spawn, countP_append, countP_singleton]
    have hc := h.cells c
    by_cases ho : owns s c t
    · obtain ⟨p, hp, rfl⟩ := Task.owns_iff.1 ho
      have := hown p hp
      rw [if_pos ho]
      omega
    · rw [if_neg ho]
      omega

/-! ## The tasks a step suspends -/

lemma Wf.follows (h : s.Wf x) {io : Io} {t t' : Task} (ht : t.Wf s)
    (hf : t.Follows x s io t') : t'.Wf s := by
  cases hf with
  | addVerify c r | recheck r stayPaused _ => exact ht
  | @promoter p bytes m torrent hb hm hnew =>
    have hp := ht.owner p rfl
    refine ⟨by simp [sessions], fun p' hp' => ?_, fun c p' hc hp' => ?_, by simp [Task.constructs]⟩
    · cases hp'
      exact hp
    · cases hc
      cases hp'
      refine ⟨hp, ?_⟩
      rw [← h.infoBytes p hp bytes hb, ← (Metainfo.fromInfoBytes_valid hm).2]
      exact (Torrent.new_meta hnew).1.symm
  | recheckMove newOutput _ | relocate r previous newOutput | moveOnComplete _ | writer r pc pc'
  | writerMove _ _ => exact .of_sessions rfl rfl rfl ht.sessions

lemma Wf.begins (h : s.Wf x) (hb : a.Begins x s t) : t.Wf s := by
  have hrun : ∀ {id r}, s.torrents.lookup id = some r →
      r < s.nextSess ∧ (s.sess r).running := fun hr =>
    ⟨(h.torrents _ _ hr).1, (h.torrents _ _ hr).2.2⟩
  cases hb with
  | recheck hr | setSavePath path hr =>
    exact .of_sessions rfl rfl rfl (by simpa [sessions] using hrun hr)
  | addMeta _ _ =>
    refine ⟨by simp [sessions], fun p hp => ?_, fun c p hc hp => ?_, by simp [Task.constructs]⟩
    · cases hp
    · cases hc
      cases hp
  | addMagnet _ _ | addInfoHash _ _ _ _ _ =>
    exact .of_sessions rfl rfl rfl (by simp [sessions])
  | poll ht hf => exact h.follows (h.tasks _ (mem_of_getElem? ht)) hf

/-- A task that will make a session object, or makes one, comes from one that did. -/
lemma Begins.polled (hb : a.Begins x s t) :
    (∀ p, t.owner = some p → ∃ n io t', a = .poll n io ∧ s.tasks[n]? = some t' ∧
      t'.owner = some p) ∧
    ∀ r, t.constructs = some r → ∃ n io t', a = .poll n io ∧ s.tasks[n]? = some t' ∧
      t'.constructs = some r := by
  cases hb with
  | poll ht hf =>
    constructor
    · intro p hp
      cases hf <;> first | cases hp; done | exact ⟨_, _, _, rfl, ht, hp⟩
    · intro r hr
      cases hf <;> first | cases hr; done | exact ⟨_, _, _, rfl, ht, hr⟩
  | _ => exact ⟨by rintro p ⟨⟩, by rintro r ⟨⟩⟩

lemma Wf.scope (h : s.Wf x) {r : Nat} (hr : (a.scope s).refs r) :
    r < s.nextSess ∧ (s.sess r).running := by
  have hin : s.inSession r → r < s.nextSess ∧ (s.sess r).running := by
    rintro ⟨id, hid⟩
    exact ⟨(h.torrents id r hid).1, (h.torrents id r hid).2.2⟩
  cases a with
  | poll n io =>
    simp only [Act.scope] at hr
    split at hr
    · rename_i t ht
      exact (h.tasks t (mem_of_getElem? ht)).sessions r hr
    · exact hr.elim
  | _ => exact hin hr

/-- No task makes what the task that goes on makes. -/
lemma Wf.constructs_without (h : s.Wf x) {n : Nat} (ht : s.tasks[n]? = some t) {r : Nat}
    (hr : t.constructs = some r) : (s.without n).tasks.countP (·.constructs = some r) = 0 := by
  have hc := Pool.countP_eraseIdx (fun t : Task => decide (t.constructs = some r)) ht
  have := h.constructs r
  rw [if_pos (by simpa using hr)] at hc
  exact Nat.le_zero.1 (by simp only [Session.without]; omega)

lemma Wf.cells_without (h : s.Wf x) {n : Nat} (ht : s.tasks[n]? = some t)
    {p : Nat} (hp : t.owner = some p) :
    (s.without n).tasks.countP (owns s (s.pend p).ctl) + s.sessionsOn (s.pend p).ctl = 0 := by
  have hc := Pool.countP_eraseIdx (owns s (s.pend p).ctl) ht
  have := h.cells (s.pend p).ctl
  rw [if_pos (Task.owns_iff.2 ⟨p, hp, rfl⟩)] at hc
  exact Nat.le_zero.1 (by simp only [Session.without]; omega)

lemma before_keeps (s : Session) (a : Act) : Keeps s (s.before a) := by
  cases a <;> first | exact .rfl | exact without_keeps s _

lemma Wf.suspends (h : s.Wf x) {s₁ : Session} (hb : a.Begins x s t)
    (hc : Ctrl (a.scope s) (s.before a) s₁) : (s₁.spawn t).Wf x := by
  have hk := (before_keeps s a).trans hc.keeps
  have h₁ : s₁.Wf x := (h.before a).ctrl hc fun r hr => by
    rw [(before_keeps s a).nextSess, (before_keeps s a).running]
    exact h.scope hr
  refine h₁.spawn ((h.begins hb).grows hk.grows fun r _ hr => (hk.running r).trans hr)
    (fun r hr => ?_) fun p hp => ?_
  · obtain ⟨n, io, t', rfl, ht', hr'⟩ := (Begins.polled hb).2 r hr
    rw [hc.constructs]
    exact h.constructs_without ht' hr'
  · obtain ⟨n, io, t', rfl, ht', hp'⟩ := (Begins.polled hb).1 p hp
    rw [hk.pendCtl, hc.owners]
    exact h.cells_without ht' hp'

/-! ## The steps that change what the session holds -/

lemma Wf.grow (h : s.Wf x) (hg : Grows s s')
    (htorrents : ∀ id r, s'.torrents.lookup id = some r → s.torrents.lookup id = some r ∨
      r < s'.nextSess ∧ (s'.sess r).torrent.infoHash = id ∧ (s'.sess r).running)
    (hpending : ∀ id p, s'.pending.lookup id = some p → s.pending.lookup id = some p ∨
      p < s'.nextPend ∧ (s'.pend p).placeholder.infoHash = id)
    (hsess : ∀ r < s'.nextSess, s.nextSess ≤ r → (s'.sess r).ctl < s'.nextCtl ∧
      (s'.sig.ctl (s'.sess r).ctl).infoHash = (s'.sess r).torrent.infoHash)
    (hpend : ∀ p < s'.nextPend, s.nextPend ≤ p → (s'.pend p).ctl < s'.nextCtl ∧
      (s'.sig.ctl (s'.pend p).ctl).infoHash = (s'.pend p).placeholder.infoHash)
    (hbytes : ∀ p < s'.nextPend, ∀ bytes, (s'.pend p).infoBytes = some bytes →
      p < s.nextPend ∧ (s.pend p).infoBytes = some bytes ∨
        x.sha1 bytes = (s'.pend p).placeholder.infoHash)
    (hslot : ∀ p < s'.nextPend, ∀ r, (s'.pend p).slot = some r →
      p < s.nextPend ∧ (s.pend p).slot = some r ∨
        r < s'.nextSess ∧ (s'.sess r).ctl = (s'.pend p).ctl) (htasks : ∀ t ∈ s'.tasks, t.Wf s')
    (hcon : ∀ r, s'.tasks.countP (·.constructs = some r) ≤ 1)
    (hcells : ∀ c, s'.tasks.countP (owns s' c) + s'.sessionsOn c ≤ 1) : s'.Wf x where
  torrents id r hr := by
    rcases htorrents id r hr with hr | hr
    · obtain ⟨hlt, hhash, hrun⟩ := h.torrents id r hr
      exact ⟨hlt.trans_le hg.nextSess, by rw [hg.torrent r hlt, hhash], hg.running r hlt hrun⟩
    · exact hr
  pending id p hp := by
    rcases hpending id p hp with hp | hp
    · obtain ⟨hlt, hhash⟩ := h.pending id p hp
      exact ⟨hlt.trans_le hg.nextPend, by rw [hg.placeholder p hlt, hhash]⟩
    · exact hp
  sess r hr := by
    rcases lt_or_ge r s.nextSess with hlt | hge
    · obtain ⟨hctl, hhash⟩ := h.sess r hlt
      rw [hg.ctl r hlt, hg.torrent r hlt, hg.infoHash _ hctl]
      exact ⟨hctl.trans_le hg.nextCtl, hhash⟩
    · exact hsess r hr hge
  pend p hp := by
    rcases lt_or_ge p s.nextPend with hlt | hge
    · obtain ⟨hctl, hhash⟩ := h.pend p hlt
      rw [hg.pendCtl p hlt, hg.placeholder p hlt, hg.infoHash _ hctl]
      exact ⟨hctl.trans_le hg.nextCtl, hhash⟩
    · exact hpend p hp hge
  infoBytes p hp bytes hb := by
    rcases hbytes p hp bytes hb with ⟨hlt, hb⟩ | hb
    · rw [hg.placeholder p hlt]
      exact h.infoBytes p hlt bytes hb
    · exact hb
  slot p hp r hs := by
    rcases hslot p hp r hs with ⟨hlt, hs⟩ | hs
    · obtain ⟨hr, hctl⟩ := h.slot p hlt r hs
      rw [hg.ctl r hr, hg.pendCtl p hlt]
      exact ⟨hr.trans_le hg.nextSess, hctl⟩
    · exact hs
  tasks := htasks
  constructs := hcon
  cells := hcells

lemma takeOut_grows (s : Session) (id : TorrentId) (d : Bool) : Grows s (s.takeOut id d) := by
  have hsess : ∀ r, ((s.takeOut id d).sess r).torrent = (s.sess r).torrent ∧
      ((s.takeOut id d).sess r).ctl = (s.sess r).ctl ∧
      ((s.takeOut id d).sess r).running = (s.sess r).running := by
    intro r
    simp only [takeOut]
    split <;> exact ⟨rfl, rfl, rfl⟩
  exact ⟨le_rfl, le_rfl, le_rfl, fun r _ => (hsess r).1, fun r _ => (hsess r).2.1,
    fun r _ h => (hsess r).2.2.trans h, fun _ _ => rfl, fun _ _ => rfl, fun _ _ => rfl⟩

lemma takeOut_running (s : Session) (id : TorrentId) (d : Bool) (r : Nat) :
    ((s.takeOut id d).sess r).running = (s.sess r).running := by
  simp only [takeOut]
  split <;> rfl

lemma Wf.takeOut (h : s.Wf x) (id : TorrentId) (d : Bool) : (s.takeOut id d).Wf x := by
  have hg := takeOut_grows s id d
  refine h.grow hg (fun id' r hr => .inl (Assoc.lookup_erase_cases hr).2) (fun id' p hp => .inl
    (Assoc.lookup_erase_cases hp).2) (fun r hr hge => absurd hr (not_lt.2 hge)) (fun p hp hge =>
    absurd hp (not_lt.2 hge)) (fun p hp bytes hb => .inl ⟨hp, hb⟩) (fun p hp r hs => .inl
    ⟨hp, hs⟩) (fun t ht => (h.tasks t ht).grows hg fun r _ hrun => (takeOut_running s id d r).trans
    hrun) h.constructs fun c => ?_
  have hon : (s.takeOut id d).sessionsOn c = s.sessionsOn c :=
    countP_congr fun r hr => by rw [hg.ctl r (mem_range.1 hr)]
  rw [hon]
  exact h.cells c

lemma metadata_grows (s : Session) (p : Nat) (bytes : Bytes) :
    Grows s (s.modifyPend p fun t => { t with infoBytes := some bytes }) :=
  ⟨le_rfl, le_rfl, le_rfl, fun _ _ => rfl, fun _ _ => rfl, fun _ _ h => h,
    fun p' _ => modifyPend_pend PendingTorrent.placeholder (by intro; rfl) s p p',
    fun p' _ => modifyPend_pend PendingTorrent.ctl (by intro; rfl) s p p', fun _ _ => rfl⟩

lemma Wf.metadata (h : s.Wf x) {p : Nat} {bytes : Bytes}
    (hb : x.sha1 bytes = (s.pend p).placeholder.infoHash) :
    (s.modifyPend p fun t => { t with infoBytes := some bytes }).Wf x := by
  set f : PendingTorrent → PendingTorrent := fun t => { t with infoBytes := some bytes }
  have hph := modifyPend_pend (f := f) PendingTorrent.placeholder (by intro; rfl) s p
  have hctl := modifyPend_pend (f := f) PendingTorrent.ctl (by intro; rfl) s p
  have hslot := modifyPend_pend (f := f) PendingTorrent.slot (by intro; rfl) s p
  have hg : Grows s (s.modifyPend p f) := metadata_grows s p bytes
  refine h.grow hg (fun _ _ hr => .inl hr) (fun _ _ hp => .inl hp)
    (fun r hr hge => absurd hr (not_lt.2 hge)) (fun p hp hge => absurd hp (not_lt.2 hge))
    (fun p' hp' bytes' hb' => ?_) (fun p' hp' r hs => .inl ⟨hp', (hslot p').symm.trans hs⟩)
    (fun t ht => (h.tasks t ht).grows hg fun _ _ h => h) h.constructs fun c => ?_
  · rcases eq_or_ne p' p with rfl | hne
    · refine .inr ?_
      simp only [modifyPend, update_self, f, some.injEq] at hb'
      rw [hph, ← hb', hb]
    · refine .inl ⟨hp', ?_⟩
      simpa only [modifyPend, update_of_ne hne] using hb'
  · have howns : owns (s.modifyPend p f) c = owns s c := by
      funext t
      simp only [owns, hctl]
    rw [howns]
    exact h.cells c

def newCell (s : Session) (c : AddCall) : Nat := (c.reuse.map fun p => (s.pend p).ctl).getD s.nextCtl

section Alloc

variable (c : AddCall)

lemma allocSession_self : ((s.allocSession c).sess s.nextSess).torrent = c.torrent ∧
    ((s.allocSession c).sess s.nextSess).ctl = s.newCell c ∧
    ((s.allocSession c).sess s.nextSess).running = false := by
  simp [allocSession, newCell]

lemma allocSession_sess {r : Nat} (h : r ≠ s.nextSess) : (s.allocSession c).sess r = s.sess r := by
  simp only [allocSession, update_of_ne h]

lemma allocSession_ctl {k : Nat} (h : k < s.nextCtl) :
    (s.allocSession c).sig.ctl k = s.sig.ctl k := by
  simp only [allocSession]
  split
  · rfl
  · exact update_of_ne h.ne ..

lemma allocSession_nextCtl : s.nextCtl ≤ (s.allocSession c).nextCtl := by
  simp only [allocSession]
  split <;> omega

lemma allocSession_grows : Grows s (s.allocSession c) where
  nextSess := Nat.le_succ _
  nextPend := le_rfl
  nextCtl := allocSession_nextCtl c
  torrent r hr := by rw [allocSession_sess c hr.ne]
  ctl r hr := by rw [allocSession_sess c hr.ne]
  running r hr h := by rw [allocSession_sess c hr.ne, h]
  placeholder _ _ := rfl
  pendCtl _ _ := rfl
  infoHash k hk := by rw [allocSession_ctl c hk]

lemma allocSession_sessionsOn (k : Nat) :
    (s.allocSession c).sessionsOn k = s.sessionsOn k + if s.newCell c = k then 1 else 0 := by
  have hold : (range s.nextSess).countP (fun r => ((s.allocSession c).sess r).ctl = k) =
      s.sessionsOn k :=
    countP_congr fun r hr => by rw [allocSession_sess c (mem_range.1 hr).ne]
  have hrange : (s.allocSession c).sessionsOn k =
      (range (s.nextSess + 1)).countP fun r => ((s.allocSession c).sess r).ctl = k := rfl
  rw [hrange, range_succ, countP_append, hold, countP_singleton, (allocSession_self c).2.1]
  simp

/-- Cells that are not in use yet belong to no session object. -/
lemma Wf.cells_fresh (h : s.Wf x) :
    s.tasks.countP (owns s s.nextCtl) + s.sessionsOn s.nextCtl = 0 := by
  have howns : s.tasks.countP (owns s s.nextCtl) = 0 := by
    refine countP_eq_zero.2 fun t ht ho => ?_
    obtain ⟨p, hp, hctl⟩ := Task.owns_iff.1 ho
    exact (h.pend p ((h.tasks t ht).owner p hp)).1.ne hctl
  have hsess : s.sessionsOn s.nextCtl = 0 := by
    refine countP_eq_zero.2 fun r hr ho => ?_
    exact (h.sess r (mem_range.1 hr)).1.ne (of_decide_eq_true ho)
  omega

lemma Wf.allocSession (h : s.Wf x) {c : AddCall} (hc : ∀ p, c.reuse = some p → p < s.nextPend ∧
      (s.pend p).placeholder.infoHash = c.torrent.infoHash ∧
      s.tasks.countP (owns s (s.pend p).ctl) + s.sessionsOn (s.pend p).ctl = 0) :
    (s.allocSession c).Wf x := by
  have hg := allocSession_grows (s := s) c
  have hcell : s.newCell c < (s.allocSession c).nextCtl ∧
      ((s.allocSession c).sig.ctl (s.newCell c)).infoHash = c.torrent.infoHash ∧
      s.tasks.countP (owns s (s.newCell c)) + s.sessionsOn (s.newCell c) = 0 := by
    cases hr : c.reuse with
    | some p =>
      obtain ⟨hp, hhash, hzero⟩ := hc p hr
      have hlt := (h.pend p hp).1
      simp only [newCell, hr, map_some, getD_some]
      rw [allocSession_ctl c hlt, (h.pend p hp).2, hhash]
      exact ⟨hlt.trans_le hg.nextCtl, rfl, hzero⟩
    | none =>
      simp only [newCell, hr, map_none, getD_none]
      refine ⟨by simp [Session.allocSession, hr], ?_, h.cells_fresh⟩
      simp [Session.allocSession, hr]
  refine h.grow hg (fun _ _ hr => .inl hr) (fun _ _ hp => .inl hp) (fun r hr hge => ?_)
    (fun p hp hge => absurd hp (not_lt.2 hge)) (fun p hp bytes hb => .inl ⟨hp, hb⟩)
    (fun p hp r hs => .inl ⟨hp, hs⟩) (fun t ht => ?_) h.constructs fun k => ?_
  · obtain rfl : r = s.nextSess := le_antisymm (Nat.lt_succ_iff.1 hr) hge
    rw [(allocSession_self c).2.1, (allocSession_self c).1]
    exact ⟨hcell.1, hcell.2.1⟩
  · refine (h.tasks t ht).grows hg fun r hr hrun => ?_
    rcases eq_or_ne r s.nextSess with rfl | hne
    · exact (allocSession_self c).2.2
    · rwa [allocSession_sess c hne]
  · rw [allocSession_sessionsOn]
    have hk := h.cells k
    have howns : owns (s.allocSession c) k = Task.owns s k := rfl
    rw [howns]
    show s.tasks.countP (Task.owns s k) + _ ≤ 1
    split
    · rename_i heq
      subst heq
      omega
    · omega

end Alloc

section Insert

variable {c : AddCall} {r : Nat}

section

variable (s : Session) (c : AddCall)

section

variable (r r' : Nat)

lemma initTorrent_sess : ((s.initTorrent c r).sess r').fixed = (s.sess r').fixed := by
  dsimp only [initTorrent]
  refine modifySess_sess TorrentSession.fixed ?_ s r r'
  intro
  rfl

lemma initTorrent_torrent : ((s.initTorrent c r).sess r').torrent = (s.sess r').torrent :=
  congrArg (·.1) (initTorrent_sess s c r r')

lemma initTorrent_ctl : ((s.initTorrent c r).sess r').ctl = (s.sess r').ctl :=
  congrArg (·.2.1) (initTorrent_sess s c r r')

lemma initTorrent_running : ((s.initTorrent c r).sess r').running = (s.sess r').running :=
  congrArg (·.2.2.1) (initTorrent_sess s c r r')

lemma initTorrent_place : ((s.initTorrent c r).sess r').place = (s.sess r').place := by
  dsimp only [initTorrent]
  refine modifySess_sess TorrentSession.place ?_ s r r'
  intro
  rfl

end

lemma initTorrent_outputDir (r p : Nat) :
    ((s.initTorrent c r).pend p).outputDir = (s.pend p).outputDir := by
  simp only [initTorrent]
  split <;> rfl

lemma initTorrent_infoHash (r k : Nat) :
    ((s.initTorrent c r).sig.ctl k).infoHash = (s.sig.ctl k).infoHash := by
  simp only [initTorrent, Signals.initState]
  rcases eq_or_ne k (s.sess r).ctl with rfl | hne
  · rw [update_self]
  · rw [update_of_ne hne]

lemma initTorrent_pend (r p : Nat) :
    ((s.initTorrent c r).pend p).placeholder = (s.pend p).placeholder ∧
      ((s.initTorrent c r).pend p).ctl = (s.pend p).ctl ∧
      ((s.initTorrent c r).pend p).infoBytes = (s.pend p).infoBytes ∧
      ((s.initTorrent c r).pend p).slot = if c.reuse = some p then some r else (s.pend p).slot := by
  simp only [initTorrent]
  split <;> exact ⟨rfl, rfl, rfl, rfl⟩

lemma initTorrent_grows (r : Nat) : Grows s (s.initTorrent c r) :=
  have hpend := initTorrent_pend s c r
  ⟨le_rfl, le_rfl, le_rfl, fun r' _ => initTorrent_torrent s c r r',
    fun r' _ => initTorrent_ctl s c r r', fun r' _ h => (initTorrent_running s c r r').trans h,
    fun p _ => (hpend p).1, fun p _ => (hpend p).2.1, fun k _ => initTorrent_infoHash s c r k⟩

end

lemma Wf.initTorrent (h : s.Wf x) (hr : r < s.nextSess)
    (hctl : ∀ p, c.reuse = some p → (s.pend p).ctl = (s.sess r).ctl) :
    (s.initTorrent c r).Wf x := by
  have hpend := initTorrent_pend s c r
  have hcell := initTorrent_ctl s c r
  have hrun := initTorrent_running s c r
  have hg := initTorrent_grows s c r
  refine h.grow hg (fun _ _ hr => .inl hr) (fun _ _ hp => .inl hp) (fun r hr hge => absurd hr
    (not_lt.2 hge)) (fun p hp hge => absurd hp (not_lt.2 hge)) (fun p hp bytes hb => .inl
    ⟨hp, (hpend p).2.2.1.symm.trans hb⟩) (fun p hp r' hs => ?_) (fun t ht => (h.tasks t ht).grows hg
    fun r' _ hrun' => (hrun r').trans hrun') h.constructs fun k => ?_
  · rw [(hpend p).2.2.2] at hs
    split at hs
    · cases hs
      refine .inr ⟨hr, ?_⟩
      rw [hcell, (hpend p).2.1, hctl p ‹_›]
    · exact .inl ⟨hp, hs⟩
  · have howns : Task.owns (s.initTorrent c r) k = Task.owns s k := by
      funext t
      simp only [Task.owns, (hpend _).2.1]
    have hon : (s.initTorrent c r).sessionsOn k = s.sessionsOn k :=
      countP_congr fun r' _ => by rw [hcell]
    rw [howns, hon]
    exact h.cells k

lemma place_sess (s : Session) (c : AddCall) (r : Nat) (initial : TorrentState) (r' : Nat) :
    ((s.place c r initial).sess r').torrent = (s.sess r').torrent ∧
      ((s.place c r initial).sess r').ctl = (s.sess r').ctl ∧
      ((s.place c r initial).sess r').cancelled = (s.sess r').cancelled ∧
      ((s.place c r initial).sess r').running = (decide (r' = r) || (s.sess r').running) := by
  simp only [place, spawn, modifySess]
  rcases eq_or_ne r' r with rfl | hne
  · simp
  · simp [hne]

lemma place_place (s : Session) (c : AddCall) (r : Nat) (initial : TorrentState) (r' : Nat) :
    ((s.place c r initial).sess r').place = (s.sess r').place := by
  dsimp only [place, spawn]
  refine modifySess_sess TorrentSession.place ?_ s r r'
  intro
  rfl

lemma place_grows (s : Session) (c : AddCall) (r : Nat) (initial : TorrentState) :
    Grows s (s.place c r initial) :=
  have hsess := place_sess s c r initial
  ⟨le_rfl, le_rfl, le_rfl, fun r' _ => (hsess r').1, fun r' _ => (hsess r').2.1,
    fun r' _ hrun => by rw [(hsess r').2.2.2, hrun, Bool.or_true], fun _ _ => rfl, fun _ _ => rfl,
    fun _ _ => rfl⟩

lemma Wf.place (h : s.Wf x) (hr : r < s.nextSess) (ht : (s.sess r).torrent = c.torrent)
    (hcon : s.tasks.countP (·.constructs = some r) = 0) (initial : TorrentState) :
    (s.place c r initial).Wf x := by
  have hsess := place_sess s c r initial
  have hg := place_grows s c r initial
  have htasks : (s.place c r initial).tasks = s.tasks ++ [.writer r .recv] := rfl
  refine h.grow hg (fun id r' hr' => ?_) (fun id p hp => .inl ?_) (fun r hr hge => absurd hr
    (not_lt.2 hge)) (fun p hp hge => absurd hp (not_lt.2 hge)) (fun p hp bytes hb => .inl
    ⟨hp, hb⟩) (fun p hp r' hs => .inl ⟨hp, hs⟩) (fun t htm => ?_) (fun r' => ?_) fun k => ?_
  · rcases Assoc.lookup_insert_cases hr' with ⟨rfl, rfl⟩ | ⟨-, hr'⟩
    · exact .inr ⟨hr, by rw [(hsess _).1, ht], by rw [(hsess _).2.2.2]; simp⟩
    · exact .inl hr'
  · simp only [Session.place] at hp
    split at hp
    · exact (Assoc.lookup_erase_cases hp).2
    · exact hp
  · rcases mem_append.1 (htasks ▸ htm) with hold | hnew
    · refine (h.tasks t hold).grows hg fun r' hr' hrun => ?_
      -- The session object taken into use is made in no other task.
      have hne : r' ≠ r := by
        rintro rfl
        exact absurd (countP_eq_zero.1 hcon t hold) (by simpa using hr')
      rw [(hsess r').2.2.2, hrun]
      simp [hne]
    · rw [mem_singleton] at hnew
      subst hnew
      refine .of_sessions rfl rfl rfl ?_
      intro r' hr'
      obtain rfl : r' = r := by simpa using hr'
      exact ⟨hr, by rw [(hsess _).2.2.2]; simp⟩
  · rw [htasks, countP_append, countP_singleton]
    simpa [Task.constructs] using h.constructs r'
  · have howns : Task.owns (s.place c r initial) k = Task.owns s k := rfl
    have hon : (s.place c r initial).sessionsOn k = s.sessionsOn k :=
      countP_congr fun r' _ => by rw [(hsess r').2.1]
    rw [howns, hon, htasks, countP_append, countP_singleton]
    simpa [Task.owns, Task.owner] using h.cells k

end Insert

lemma registerPending_pend (s : Session) (c : PendingCall) {p : Nat} (hp : p ≠ s.nextPend) :
    (s.registerPending c).pend p = s.pend p :=
  update_of_ne hp ..

lemma registerPending_ctl (s : Session) (c : PendingCall) {k : Nat} (hk : k < s.nextCtl) :
    (s.registerPending c).sig.ctl k = s.sig.ctl k :=
  update_of_ne hk.ne ..

lemma registerPending_grows (s : Session) (c : PendingCall) : Grows s (s.registerPending c) :=
  ⟨le_rfl, Nat.le_succ _, Nat.le_succ _, fun _ _ => rfl, fun _ _ => rfl, fun _ _ h => h,
    fun p hp => by rw [registerPending_pend s c hp.ne],
    fun p hp => by rw [registerPending_pend s c hp.ne],
    fun k hk => by rw [registerPending_ctl s c hk]⟩

lemma Wf.registerPending (h : s.Wf x) (c : PendingCall) : (s.registerPending c).Wf x := by
  have hself : ((s.registerPending c).pend s.nextPend).ctl = s.nextCtl ∧
      ((s.registerPending c).pend s.nextPend).placeholder = placeholder c.infoHash c.name ∧
      ((s.registerPending c).pend s.nextPend).infoBytes = none ∧
      ((s.registerPending c).pend s.nextPend).slot = none := by
    simp [Session.registerPending]
  have hold : ∀ p, p ≠ s.nextPend → (s.registerPending c).pend p = s.pend p :=
    fun p hp => registerPending_pend s c hp
  have hnew : (s.registerPending c).sig.ctl s.nextCtl =
      ⟨c.infoHash, pendingInitial c, syncDownloadState (pendingInitial c)⟩ :=
    update_self ..
  have hg := registerPending_grows s c
  have hlast : ∀ p < (s.registerPending c).nextPend, s.nextPend ≤ p → p = s.nextPend :=
    fun p hp hge => le_antisymm (Nat.lt_succ_iff.1 hp) hge
  have htasks : (s.registerPending c).tasks =
      s.tasks ++ if c.magnet then [.promoter s.nextPend] else [] := rfl
  refine h.grow hg (fun _ _ hr => .inl hr) (fun id p hp => ?_)
    (fun r hr hge => absurd hr (not_lt.2 hge)) (fun p hp hge => ?_)
    (fun p hp bytes hb => ?_) (fun p hp r hs => ?_) (fun t ht => ?_) (fun r => ?_) fun k => ?_
  · rcases Assoc.lookup_insert_cases hp with ⟨rfl, rfl⟩ | ⟨-, hp⟩
    · exact .inr ⟨Nat.lt_succ_self _, by rw [hself.2.1]; rfl⟩
    · exact .inl hp
  · obtain rfl := hlast p hp hge
    rw [hself.1, hself.2.1, hnew]
    exact ⟨Nat.lt_succ_self _, rfl⟩
  · rcases eq_or_ne p s.nextPend with rfl | hne
    · rw [hself.2.2.1] at hb
      cases hb
    · rw [hold p hne] at hb
      exact .inl ⟨lt_of_le_of_ne (Nat.lt_succ_iff.1 hp) hne, hb⟩
  · rcases eq_or_ne p s.nextPend with rfl | hne
    · rw [hself.2.2.2] at hs
      cases hs
    · rw [hold p hne] at hs
      exact .inl ⟨lt_of_le_of_ne (Nat.lt_succ_iff.1 hp) hne, hs⟩
  · rw [htasks] at ht
    rcases mem_append.1 ht with ht | ht
    · exact (h.tasks t ht).grows hg fun _ _ h => h
    · split at ht
      · rw [mem_singleton] at ht
        subst ht
        refine ⟨by simp, fun p hp => ?_, by simp [Task.adding],
          by simp [Task.constructs]⟩
        cases hp
        exact Nat.lt_succ_self _
      · cases ht
  · rw [htasks, countP_append]
    have := h.constructs r
    split <;> simpa [Task.constructs] using this
  · -- The cells of the new magnet are new, and those of the others are where they were.
    have hon : (s.registerPending c).sessionsOn k = s.sessionsOn k := rfl
    have howns : s.tasks.countP (Task.owns (s.registerPending c) k) =
        s.tasks.countP (Task.owns s k) := by
      refine countP_congr fun t ht => ?_
      rw [Task.owns_iff, Task.owns_iff]
      refine exists_congr fun p => and_congr_right fun hp => ?_
      rw [hold p ((h.tasks t ht).owner p hp).ne]
    have hone : (if c.magnet then [Task.promoter s.nextPend] else []).countP
        (Task.owns (s.registerPending c) k) ≤ if s.nextCtl = k then 1 else 0 := by
      split
      · simp [countP_cons, Task.owns, Task.owner, hself.1]
      · simp
    rw [hon, htasks, countP_append, howns]
    have hk := h.cells k
    rcases eq_or_ne s.nextCtl k with rfl | hne
    · have := h.cells_fresh
      rw [if_pos rfl] at hone
      omega
    · rw [if_neg hne] at hone
      omega

/-! ## Every state is well-formed -/

/-- A session object with the cells of the magnet it is made for. -/
structure Constructed (s : Session) (c : AddCall) (r : Nat) : Prop where
  lt : r < s.nextSess
  running : (s.sess r).running = false
  torrent : (s.sess r).torrent = c.torrent
  ctl : ∀ p, c.reuse = some p → (s.pend p).ctl = (s.sess r).ctl
  reuse : ∀ p, c.reuse = some p → p < s.nextPend ∧
    (s.pend p).placeholder.infoHash = c.torrent.infoHash
  once : s.tasks.countP (·.constructs = some r) = 0

lemma Constructed.ctrl {al : Scope} {c : AddCall} {r : Nat} (h : Constructed s c r)
    (hc : Ctrl al s s') : Constructed s' c r := by
  have hk := hc.keeps
  refine ⟨by rw [hk.nextSess]; exact h.lt, by rw [hk.running]; exact h.running,
    by rw [hk.torrent]; exact h.torrent, fun p hp => ?_, fun p hp => ?_,
    by rw [hc.constructs]; exact h.once⟩
  · rw [hk.pendCtl, hk.ctl]
    exact h.ctl p hp
  · rw [hk.nextPend, hk.placeholder]
    exact h.reuse p hp

lemma Wf.constructed (h : s.Wf x) {n r : Nat} {t : Task} {c : AddCall} (ht : s.tasks[n]? = some t)
    (hr : t.constructs = some r) (hc : t.adding = some c) : Constructed (s.without n) c r := by
  have htw := h.tasks t (mem_of_getElem? ht)
  obtain ⟨h₁, h₂, h₃, h₄⟩ := htw.constructs r c hr hc
  exact ⟨h₁, h₂, h₃, h₄, fun p hp => htw.adding c p hc hp, h.constructs_without ht hr⟩

lemma Wf.opened (h : s.Wf x) {n : Nat} {c : AddCall} (ht : s.tasks[n]? = some (.addOpen c)) :
    ((s.without n).allocSession c).Wf x ∧
      Constructed ((s.without n).allocSession c) c s.nextSess := by
  have htw := h.tasks _ (mem_of_getElem? ht)
  have hself := allocSession_self (s := s.without n) c
  refine ⟨(h.without n).allocSession fun p hp => ?_, Nat.lt_succ_self _, hself.2.2, hself.1,
    fun p hp => ?_, fun p hp => htw.adding c p rfl hp, ?_⟩
  · obtain ⟨hlt, hhash⟩ := htw.adding c p rfl hp
    exact ⟨hlt, hhash, h.cells_without ht hp⟩
  · refine Eq.symm (hself.2.1.trans ?_)
    simp only [newCell, hp, map_some, getD_some]
    rfl
  · refine countP_eq_zero.2 fun t htm hr => ?_
    have hlt := ((h.without n).tasks t htm).constructs s.nextSess
    cases t <;> first | cases of_decide_eq_true hr; exact absurd (hlt _ rfl rfl).1 (lt_irrefl _) |
      cases of_decide_eq_true hr

lemma Wf.listen (h : s.Wf x) {c : AddCall} {r : Nat} {st : TorrentState} {startPaused : Bool}
    (hc : Constructed s c r) :
    ((s.initTorrent c r).spawn (.addListen c r st startPaused)).Wf x := by
  refine (h.initTorrent hc.lt hc.ctl).spawn ⟨by simp, by simp [Task.owner],
    fun c' p hc' hp => ?_, fun r' c' hr' hc' => ?_⟩ (fun r' hr' => ?_) (by simp [Task.owner])
  · cases hc'
    rw [(initTorrent_pend s c r p).1]
    exact hc.reuse p hp
  · cases hr'
    cases hc'
    rw [initTorrent_running, initTorrent_torrent, initTorrent_ctl]
    refine ⟨hc.lt, hc.running, hc.torrent, fun p hp => ?_⟩
    rw [(initTorrent_pend s c r p).2.1]
    exact hc.ctl p hp
  · cases hr'
    exact hc.once

lemma Wf.stepCase {a : Act} (h : s.Wf x) (hs : StepCase x s e a s') : s'.Wf x := by
  cases hs with
  | ctrl hc _ =>
    refine (h.before a).ctrl hc fun r hr => ?_
    rw [(before_keeps s a).nextSess, (before_keeps s a).running]
    exact h.scope hr
  | suspends hb hc _ => exact h.suspends hb hc
  | removed _ hc => exact (h.takeOut _ _).ctrl hc fun _ hr => hr.elim
  | metadata _ _ hb => exact h.metadata hb
  | opened ht =>
    obtain ⟨hwf, hc⟩ := h.opened ht
    refine hwf.spawn ⟨by simp, by simp [Task.owner], fun c' p hc' hp => ?_,
      fun r' c' hr' hc' => ?_⟩ (fun r' hr' => ?_) (by simp [Task.owner])
    · cases hc'
      exact hc.reuse p hp
    · cases hr'
      cases hc'
      exact ⟨hc.lt, hc.running, hc.torrent, hc.ctl⟩
    · cases hr'
      exact hc.once
  | openedAll ht hc =>
    obtain ⟨hwf, hcon⟩ := h.opened ht
    exact (hwf.ctrl hc fun _ hr => hr.elim).listen (hcon.ctrl hc)
  | finished ht hc =>
    exact ((h.without _).ctrl hc fun _ hr => hr.elim).listen ((h.constructed ht rfl rfl).ctrl hc)
  | inserted ht hc =>
    have hcon := h.constructed ht rfl rfl
    refine ((h.without _).place hcon.lt hcon.torrent hcon.once _).ctrl hc fun r hr => ?_
    subst hr
    exact ⟨hcon.lt, by rw [(place_sess ..).2.2.2]; simp⟩
  | registered ht => exact (h.without _).registerPending _

/-- Every session that a new one leads to is well-formed. -/
lemma run_wf {ok : Session → Env × Act → Prop} {as : List (Env × Act)}
    (h : Run (step x) ok s as s') (hs : s.Wf x) : s'.Wf x :=
  h.inv (fun h _ hstep => h.stepCase (step_cases hstep)) hs

theorem reachable_wf (options : SessionOptions) (categories : Categories)
    (resumeFiles : ResumeFiles) (as : List (Env × Act))
    (h : Run (step x) anyStep (.new options categories resumeFiles) as s) : s.Wf x :=
  run_wf h (new_wf ..)

theorem reachable_wf_magnet : ∃ s, Run (step noExt) anyStep (.new {} ∅ ∅)
      [({}, .addMagnet 0 ⟨0, none, [], [], []⟩ {}), ({}, .poll 0 {})] s ∧
    s.tasks ≠ [] ∧ s.Wf noExt :=
  have hrun := Run.of_isSome
  ⟨_, hrun, by decide, reachable_wf {} ∅ ∅ _ hrun⟩

end Session

end BitRev
